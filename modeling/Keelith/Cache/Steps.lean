import Keelith.Cache.Model
import Keelith.Lib.Threads

/-!
# What a step does

One relation for each kind of thread says all that its steps can do: `GetMove`, `FlightMove`,
`MutationMove`. `Steps` puts them together; `exec_steps` shows that it covers every input. `Origin`
says where a thread after a step comes from, and `Changes` what has become of the shared memory.
Everything later is a case analysis on these relations.
-/

namespace Keelith.Cache

variable {τ : Type}

/-! ## What a step can do -/

/-- `read` returns an error. -/
def Config.readFails (cfg : Config τ) (reply : Reply) (entry : Option Entry) : Bool :=
  match cfg.read reply entry with
  | .failed _ => true
  | _ => false

/-- A call of the backend fails in the step. -/
@[simp] def GetCall.fails (cfg : Config τ) (s : System τ) (answer : Answer τ)
    (g : GetCall τ) : Bool :=
  match g.phase with
  | .reading => cfg.readFails answer.reply (s.shared.entries g.key)
  | _ => false

/-- The stripe of a flight. -/
def Flight.stripe (f : Flight τ) : Nat := mutationStripeIndex f.key

/-- A call of the backend or the loader fails in the step. -/
@[simp] def Flight.fails (cfg : Config τ) (s : System τ) (answer : Answer τ)
    (f : Flight τ) : Bool :=
  match f.phase with
  | .counted _ => cfg.readFails answer.reply (s.shared.entries f.key)
  | .missed _ => cfg.versioned && answer.reply.error?.isSome
  | .loading _ _ _ => !answer.loaded.isOk
  | .writing _ _ => answer.reply.error?.isSome
  | _ => false

/-- The flight that can be joined becomes another one. -/
def Shared.setFlight (s : Shared) (cache : Nat) (key : String) (flight : Option Nat) : Shared :=
  s.setGroup cache (Function.update (s.group cache) key flight)

section

variable (cfg : Config τ) (s : System τ) (index : Nat) (answer : Answer τ) (g : GetCall τ)
  (f : Flight τ) (m : Mutation τ)

/-- What a step of a call of `Get` does. -/
inductive GetMove : GetPhase τ → Shared → List (Thread τ) → Prop
  | hit {value source} (phase : g.phase = .reading)
      (read : cfg.read answer.reply (s.shared.entries g.key) = .hit value source) :
      GetMove (.returned (.ok (value, source))) s.shared []
  | negative {err} (phase : g.phase = .reading)
      (read : cfg.read answer.reply (s.shared.entries g.key) = .negative) :
      GetMove (.returned (.error err)) s.shared []
  | fail {err} (fails : g.fails cfg s answer = true) :
      GetMove (.returned (.error err)) s.shared []
  | miss (phase : g.phase = .reading) : GetMove .joining s.shared []
  | join {flight} (phase : g.phase = .joining) (joined : s.shared.group g.cache g.key =
      some flight) :
      GetMove (.waiting flight) s.shared []
  | create (phase : g.phase = .joining) (alone : s.shared.group g.cache g.key = none) :
      GetMove (.waiting s.threads.length)
        (s.shared.setFlight g.cache g.key (some s.threads.length))
        [.flight ⟨g.cache, g.key, s.clock, .created⟩]
  | cancel {err} (canceled : answer.canceled.isSome = true) :
      GetMove (.returned (.error err)) s.shared []
  | receive {flight f result} (phase : g.phase = .waiting flight)
      (sent : s.threads[flight]? = some (.flight f)) (finished : f.phase = .finished result) :
      GetMove (.returned result) s.shared []

/-- What a step of a flight does. -/
inductive FlightMove : FlightPhase τ → Shared → Observation → Prop
  | count (phase : f.phase = .created) : FlightMove
      (.counted (s.shared.generation f.cache f.stripe)) s.shared .silent
  | hit {generation value source} (phase : f.phase = .counted generation)
      (read : cfg.read answer.reply (s.shared.entries f.key) = .hit value source) :
      FlightMove (.finishing (.ok (value, source))) s.shared .silent
  | negative {generation err} (phase : f.phase = .counted generation)
      (read : cfg.read answer.reply (s.shared.entries f.key) = .negative) :
      FlightMove (.finishing (.error err)) s.shared .silent
  | fail {err} (fails : f.fails cfg s answer = true) :
      FlightMove (.finishing (.error err)) s.shared .silent
  | miss {generation} (phase : f.phase = .counted generation) :
      FlightMove (.missed generation) s.shared .silent
  | version {generation version} (phase : f.phase = .missed generation)
      (read : version = none ∨ version = some (s.shared.versions f.key)) :
      FlightMove (.ready generation version) s.shared .silent
  | start {generation version} (phase : f.phase = .ready generation version) :
      FlightMove (.loading generation version s.clock) s.shared .silent
  | load {generation version startedAt} (phase : f.phase = .loading generation version startedAt)
      (negative : ∀ err, answer.loaded = .error err → cfg.policy.negative err = true) :
      FlightMove (.storing ⟨generation, version, startedAt, answer.loaded⟩)
        s.shared .silent
  | lock {load} (phase : f.phase = .storing load) (free : s.shared.lock f.cache f.stripe = none) :
      FlightMove (load.check cfg (s.shared.generation f.cache f.stripe))
        (s.shared.setLock f.cache f.stripe (some index)) .silent
  | write {load envelope} (phase : f.phase = .writing load envelope)
      (admitted : load.admitted cfg (s.shared.versions f.key) = true) :
      FlightMove (.unlocking load answer.reply.error?)
        (s.shared.write f.key ⟨envelope, s.clock, some load.startedAt⟩)
        (.stores f.cache f.key f.createdAt load.startedAt)
  | skip {load envelope} (phase : f.phase = .writing load envelope) :
      FlightMove (.unlocking load answer.reply.error?) s.shared .silent
  | unlock {load err} (phase : f.phase = .unlocking load err) :
      FlightMove (.finishing (load.result cfg.policy.failOpen err))
        (s.shared.setLock f.cache f.stripe none) .silent
  | finish {result shared} (phase : f.phase = .finishing result)
      (removed : shared = s.shared ∨ shared = s.shared.setFlight f.cache f.key none) :
      FlightMove (.finished result) shared .silent

/-- What a call of `ApplyInvalidation` does. -/
inductive Applies (key : String) : Shared → Observation → Prop
  | keep : Applies key s.shared .silent
  | apply {version} (newer : s.shared.versions key < version) : Applies key
      { (s.shared.delete [key]) with versions := Function.update s.shared.versions key version }
        (.applied key)

/-- What the calls of the backend by a mutation do. An invalidation that returns without an error
has deleted its keys. -/
inductive Acts : Except Error Answered → Shared → Prop
  | keep {result} (kept : m.kind = .invalidate → ∃ err, result = .error err) : Acts result s.shared
  | write {result value payload} (set : m.kind = .set value) :
      Acts result (s.shared.write (m.keys.headD "") ⟨envelopeValue :: payload, s.clock, none⟩)
  | delete {result} (invalidate : m.kind = .invalidate) : Acts result (s.shared.delete m.keys)

/-- What a step of a mutation does. -/
inductive MutationMove : MutationPhase → Shared → Observation → Prop
  | apply {shared output} (phase : m.phase = .applying)
      (applies : Applies s (m.keys.headD "") shared output) :
      MutationMove (.locking (lockStripes m.keys)) shared output
  | answer {shared output result} (phase : m.phase = .applying) (kind : ∃ version,
      m.kind = .version version)
      (applies : Applies s (m.keys.headD "") shared output) :
      MutationMove (.returned s.clock result) shared output
  | lock {stripe todo} (phase : m.phase = .locking (stripe :: todo))
      (free : s.shared.lock m.cache stripe = none) :
      MutationMove (.locking todo) (s.shared.setLock m.cache stripe (some index)) .silent
  | locked (phase : m.phase = .locking []) :
      MutationMove (.bumping (lockStripes m.keys)) s.shared .silent
  | bump {stripe todo} (phase : m.phase = .bumping (stripe :: todo)) :
      MutationMove (.bumping todo) (s.shared.bump m.cache stripe) (.bumps m.cache stripe)
  | bumped (phase : m.phase = .bumping []) : MutationMove (.forgetting m.keys) s.shared .silent
  | forget {key todo} (phase : m.phase = .forgetting (key :: todo)) :
      MutationMove (.forgetting todo) (s.shared.setFlight m.cache key none) .silent
  | forgotten (phase : m.phase = .forgetting []) : MutationMove .acting s.shared .silent
  | act {result shared} (phase : m.phase = .acting) (acts : Acts s m result shared) :
      MutationMove (.unlocking (lockStripes m.keys).reverse result) shared .silent
  | read {version} (phase : m.phase = .acting) (set : ∃ value, m.kind = .set value) :
      MutationMove (.setting version) s.shared .silent
  | set {version result shared} (phase : m.phase = .setting version) (set : ∃ value,
      m.kind = .set value)
      (acts : Acts s m result shared) :
      MutationMove (.unlocking (lockStripes m.keys).reverse result) shared .silent
  | unlock {stripe todo result} (phase : m.phase = .unlocking (stripe :: todo) result) :
      MutationMove (.unlocking todo result) (s.shared.setLock m.cache stripe none) .silent
  | done {result} (phase : m.phase = .unlocking [] result) :
      MutationMove (.returned s.clock result) s.shared .silent

end

variable {sf : Singleflight} {cfg : Config τ} {answer : Answer τ} {move : Move τ} {s : System τ}
  {index : Nat} {m : Mutation τ}

/-! ## Get -/

/-- A hit is the value of an entry. -/
theorem Config.read_hit {reply : Reply} {entry : Option Entry} {value : τ} {source : Source}
    (h : cfg.read reply entry = .hit value source) : ∃ e, entry = some e ∧ source = e.source := by
  unfold read at h
  split at h
  · cases h
  split at h
  · cases h
  rename_i e
  refine ⟨e, rfl, ?_⟩
  split at h
  · cases h
  split at h
  · cases h
  split at h
  · split at h
    · cases h
    · exact (Read.hit.inj h).2.symm
  · cases h

theorem Shared.setGroup_self (s : Shared) (cache : Nat) : s.setGroup cache (s.group cache) = s := by
  simp [setGroup]

theorem GetCall.step_move {g : GetCall τ} (h : g.step sf cfg s answer = some move) :
    move.output = .silent ∧ ∃ phase, move.thread = .get { g with phase } ∧
      GetMove cfg s answer g phase move.shared move.spawned := by
  unfold step at h
  split at h
  · rename_i hphase
    split at h <;> cases h <;> refine ⟨rfl, _, rfl, ?_⟩
    · exact .hit hphase ‹_›
    · exact .negative hphase ‹_›
    · exact .miss hphase
    · rename_i hread
      split
      · exact .miss hphase
      · exact .fail (by simp [hphase, Config.readFails, hread])
  · rename_i hphase
    cases hgroup : s.shared.group g.cache g.key with
    | some flight =>
      rw [sf.doChan_joins _ hgroup] at h
      cases h
      refine ⟨rfl, _, rfl, ?_⟩
      dsimp only
      rw [Shared.setGroup_self]
      exact .join hphase hgroup
    | none =>
      rw [sf.doChan_runs _ hgroup] at h
      cases h
      exact ⟨rfl, _, rfl, .create hphase hgroup⟩
  · rename_i hphase
    split at h
    · rename_i hcanceled
      cases h
      exact ⟨rfl, _, rfl, .cancel (by simp [hcanceled])⟩
    · split at h
      · cases h
        exact ⟨rfl, _, rfl, .receive hphase ‹_› rfl⟩
      · cases h
  · cases h

/-! ## Flights -/

theorem Flight.step_move {f : Flight τ} (h : f.step sf cfg s index answer = some move) :
    move.spawned = [] ∧ ∃ phase, move.thread = .flight { f with phase } ∧
      FlightMove cfg s index answer f phase move.shared move.output := by
  unfold step at h
  dsimp only at h
  split at h
  · cases h
    exact ⟨rfl, _, rfl, .count ‹_›⟩
  · rename_i hphase
    split at h <;> cases h <;> refine ⟨rfl, _, rfl, ?_⟩
    · exact .hit hphase ‹_›
    · exact .negative hphase ‹_›
    · exact .miss hphase
    · rename_i hread
      split
      · exact .miss hphase
      · exact .fail (by simp [hphase, Config.readFails, hread])
  · rename_i hphase
    split at h
    · cases h
      exact ⟨rfl, _, rfl, .version hphase (.inl rfl)⟩
    · rename_i hversioned
      split at h <;> cases h <;> refine ⟨rfl, _, rfl, ?_⟩
      · exact .version hphase (.inr rfl)
      · rename_i hreply
        split
        · exact .version hphase (.inl rfl)
        · exact .fail (by simpa [hphase, hreply, Reply.error?] using hversioned)
  · cases h
    exact ⟨rfl, _, rfl, .start ‹_›⟩
  · rename_i hphase
    split at h <;> cases h <;> refine ⟨rfl, _, rfl, ?_⟩
    · rename_i hloaded
      exact .load hphase (by simp [hloaded])
    · rename_i err hloaded
      split
      · rename_i hnegative
        exact .load hphase (by simp [hloaded, hnegative])
      · exact .fail (by simp [hphase, hloaded, Except.toBool])
  · rename_i hphase
    split at h
    · cases h
    · cases h
      exact ⟨rfl, _, rfl, .lock hphase ‹_›⟩
  · rename_i hphase
    split at h <;> cases h
    · rename_i happlied
      rw [Bool.and_eq_true] at happlied
      exact ⟨rfl, _, rfl, .write hphase happlied.2⟩
    · exact ⟨rfl, _, rfl, .skip hphase⟩
  · cases h
    exact ⟨rfl, _, rfl, .unlock ‹_›⟩
  · rename_i hphase
    cases h
    refine ⟨rfl, _, rfl, .finish hphase ?_⟩
    dsimp only
    rw [sf.complete_eq]
    split
    · exact .inr rfl
    · exact .inl (Shared.setGroup_self ..)
  · cases h

/-! ## Mutations -/

theorem Mutation.act_move (cfg : Config τ) (hphase : m.phase = .acting)
    (reply : Reply) : MutationMove s index m (m.act cfg s reply).1 (m.act cfg s reply).2
    .silent := by
  unfold act
  split
  · rename_i value hkind
    have hset : m.kind ≠ .invalidate := by rw [hkind]; exact nofun
    split
    · exact .act hphase (.keep fun h => absurd h hset)
    · split
      · split
        · exact .act hphase (.keep fun h => absurd h hset)
        · exact .read hphase ⟨_, hkind⟩
      · by_cases happlied : reply.applied = true
        · rw [if_pos happlied]
          exact .act hphase (.write hkind)
        · rw [if_neg happlied]
          exact .act hphase (.keep fun h => absurd h hset)
  · rename_i hkind
    cases reply with
    | ok => exact .act hphase (.delete hkind)
    | fail err applied =>
      cases applied with
      | true => exact .act hphase (.delete hkind)
      | false => exact .act hphase (.keep fun _ => ⟨err, rfl⟩)
  all_goals
    rename_i hkind
    exact .act hphase (.keep fun h => by rw [hkind] at h; cases h)

theorem Mutation.setIfVersion_acts (cfg : Config τ) {value : τ}
    (hkind : m.kind = .set value) (version : UInt64) (reply : Reply) :
    Acts s m (m.setIfVersion cfg s value version reply).1
      (m.setIfVersion cfg s value version reply).2 := by
  have hset : m.kind ≠ .invalidate := by rw [hkind]; exact nofun
  unfold setIfVersion
  dsimp only
  split
  · exact .keep fun h => absurd h hset
  · by_cases happlied : (reply.applied && s.shared.versions (m.keys.headD "") == version) = true
    · rw [if_pos happlied]
      exact .write hkind
    · rw [if_neg happlied]
      exact .keep fun h => absurd h hset

theorem Mutation.apply_move (hphase : m.phase = .applying)
    {version : UInt64} (hkind : m.kind = .version version) (reply : Reply) :
    ∃ state phase, (m.apply s version reply).thread = .mutation { m with state, phase } ∧
      MutationMove s index m phase (m.apply s version reply).shared
        (m.apply s version reply).output ∧ (m.apply s version reply).spawned = [] := by
  have happlies : Applies s (m.keys.headD "")
      (if reply.applied then (s.shared.applyInvalidation (m.keys.headD "") version).2 else s.shared)
      (if reply.applied && (s.shared.applyInvalidation (m.keys.headD "") version).1 == .applied
        then .applied (m.keys.headD "") else .silent) := by
    unfold Shared.applyInvalidation
    cases reply.applied with
    | false => exact .keep
    | true =>
      by_cases hnewer : s.shared.versions (m.keys.headD "") < version
      · simp only [if_pos hnewer]
        exact .apply hnewer
      · by_cases hcurrent : version = s.shared.versions (m.keys.headD "")
        · simp only [if_neg hnewer, if_pos hcurrent]
          exact .keep
        · simp only [if_neg hnewer, if_neg hcurrent]
          exact .keep
  unfold apply
  dsimp only
  split
  · exact ⟨m.state, _, rfl, .answer hphase ⟨_, hkind⟩ happlies, rfl⟩
  · split
    · exact ⟨m.state, _, rfl, .answer hphase ⟨_, hkind⟩ happlies, rfl⟩
    · exact ⟨_, _, rfl, .apply hphase happlies, rfl⟩

theorem Mutation.step_move (h : m.step sf cfg s index answer = some move) : move.spawned = [] ∧
      ∃ state phase, move.thread = .mutation { m with state, phase } ∧
        MutationMove s index m phase move.shared move.output := by
  unfold step at h
  split at h
  · cases h
  · rename_i hphase
    split at h
    · rename_i hkind
      cases h
      obtain ⟨state, phase, hthread, hmove, hspawned⟩ := m.apply_move hphase hkind answer.reply
      exact ⟨hspawned, state, phase, hthread, hmove⟩
    · cases h
  · cases h
    exact ⟨rfl, m.state, _, rfl, .locked ‹_›⟩
  · rename_i hphase
    split at h
    · cases h
    · cases h
      exact ⟨rfl, m.state, _, rfl, .lock hphase ‹_›⟩
  · cases h
    exact ⟨rfl, m.state, _, rfl, .bumped ‹_›⟩
  · cases h
    exact ⟨rfl, m.state, _, rfl, .bump ‹_›⟩
  · cases h
    exact ⟨rfl, m.state, _, rfl, .forgotten ‹_›⟩
  · cases h
    refine ⟨rfl, m.state, _, rfl, ?_⟩
    dsimp only
    rw [sf.forget_eq]
    exact .forget ‹_›
  · rename_i hphase
    cases h
    exact ⟨rfl, m.state, _, rfl, m.act_move cfg hphase answer.reply⟩
  · rename_i version hphase
    split at h
    · rename_i value hkind
      cases h
      exact ⟨rfl, m.state, _, rfl,
        .set hphase ⟨value, hkind⟩ (m.setIfVersion_acts cfg hkind version answer.reply)⟩
    · cases h
  · cases h
    exact ⟨rfl, m.state, _, rfl, .done ‹_›⟩
  · cases h
    exact ⟨rfl, m.state, _, rfl, .unlock ‹_›⟩
  · cases h

/-! ## Steps of the system -/

/-- What one input does. -/
inductive Steps (cfg : Nat → Config τ) (s : System τ) : Input τ → Observation → System τ → Prop
  | idle {input} : Steps cfg s input .silent { s with clock := s.clock + 1 }
  | get (cache : Nat) (key : String) : Steps cfg s (.get cache key) .silent
      { s with threads := s.threads ++ [.get (newGet cache key s.clock)], clock := s.clock + 1 }
  | mutate (cache : Nat) (kind : Kind τ) (keys : List String) :
      Steps cfg s (.mutate cache kind keys) .silent
      { s with
        threads := s.threads ++ [.mutation ⟨cache, kind, keys, s.clock, none,
          checkMutation (cfg cache) kind keys⟩]
        clock := s.clock + 1 }
  | expire (key : String) : Steps cfg s (.expire key) .silent
      { s with shared := s.shared.delete [key], clock := s.clock + 1 }
  | getMove {index answer g phase shared spawned} (thread : s.threads[index]? = some (.get g))
      (move : GetMove (cfg g.cache) s answer g phase shared spawned) :
      Steps cfg s (.step index answer) .silent
        ⟨shared, s.threads.set index (.get { g with phase }) ++ spawned, s.clock + 1⟩
  | flightMove {index answer f phase shared output} (thread : s.threads[index]? = some (.flight f))
      (move : FlightMove (cfg f.cache) s index answer f phase shared output) :
      Steps cfg s (.step index answer) output
        ⟨shared, s.threads.set index (.flight { f with phase }), s.clock + 1⟩
  | mutationMove {index answer m state phase shared output}
      (thread : s.threads[index]? = some (.mutation m))
      (move : MutationMove s index m phase shared output) :
      Steps cfg s (.step index answer) output
        ⟨shared, s.threads.set index (.mutation { m with state, phase }), s.clock + 1⟩

theorem exec_steps (sf : Singleflight) (cfg : Nat → Config τ) (s : System τ) (i : Input τ) :
    Steps cfg s i (s.exec sf cfg i).1 (s.exec sf cfg i).2 := by
  cases i with
  | get cache key => exact .get cache key
  | mutate cache kind keys => exact .mutate cache kind keys
  | expire key => exact .expire key
  | step index answer =>
    simp only [System.exec]
    cases hthread : s.threads[index]? with
    | none => exact .idle
    | some thread =>
      rw [Option.bind_some]
      cases hstep : thread.step sf cfg s index answer with
      | none => exact .idle
      | some move =>
        obtain ⟨thread', shared, spawned, output⟩ := move
        cases thread with
        | get g =>
          obtain ⟨rfl, phase, rfl, hmove⟩ := GetCall.step_move hstep
          exact .getMove hthread hmove
        | flight f =>
          obtain ⟨rfl, phase, rfl, hmove⟩ := Flight.step_move hstep
          simpa [System.moved] using Steps.flightMove hthread hmove
        | mutation m =>
          obtain ⟨rfl, state, phase, rfl, hmove⟩ := Mutation.step_move hstep
          have hsteps : Steps cfg s (.step index answer) _
            ⟨_, s.threads.set index (.mutation { m with state, phase }), _⟩ :=
              .mutationMove hthread hmove
          simpa [System.moved] using hsteps

/-! ## Threads after a step -/

/-- A thread of the system after others were added. -/
theorem getElem?_added {threads added : List (Thread τ)} {j : Nat} {t : Thread τ}
    (h : (threads ++ added)[j]? = some t) : threads[j]? = some t ∨ t ∈ added := by
  rw [List.getElem?_append] at h
  split at h
  · exact .inl h
  · exact .inr (List.mem_of_getElem? h)

/-- Where a thread of the system after a step comes from. -/
inductive Origin (cfg : Nat → Config τ) (s : System τ) (output : Observation)
    (shared : Shared) (j : Nat) : Input τ → Thread τ → Prop
  | kept {input t} (before : s.threads[j]? = some t) : Origin cfg s output shared j input t
  | get (cache : Nat) (key : String) :
      Origin cfg s output shared j (.get cache key) (.get (newGet cache key s.clock))
  | mutation (cache : Nat) (kind : Kind τ) (keys : List String) :
      Origin cfg s output shared j (.mutate cache kind keys)
      (.mutation ⟨cache, kind, keys, s.clock, none, checkMutation (cfg cache) kind keys⟩)
  | created {index : Nat} {answer : Answer τ} {g : GetCall τ}
      (caller : s.threads[index]? = some (.get g))
      (next : j = s.threads.length) : Origin cfg s output shared j (.step index answer)
        (.flight ⟨g.cache, g.key, s.clock, .created⟩)
  | getMoved {answer g phase spawned} (before : s.threads[j]? = some (.get g))
      (move : GetMove (cfg g.cache) s answer g phase shared spawned) :
      Origin cfg s output shared j (.step j answer) (.get { g with phase })
  | flightMoved {answer f phase} (before : s.threads[j]? = some (.flight f))
      (move : FlightMove (cfg f.cache) s j answer f phase shared output) :
      Origin cfg s output shared j (.step j answer) (.flight { f with phase })
  | mutationMoved {answer m state phase} (before : s.threads[j]? = some (.mutation m))
      (move : MutationMove s j m phase shared output) :
      Origin cfg s output shared j (.step j answer) (.mutation { m with state, phase })

/-- What a call of `Get` changes besides its phase. -/
theorem GetMove.frame {g : GetCall τ} {phase : GetPhase τ} {shared : Shared}
    {spawned : List (Thread τ)} (h : GetMove cfg s answer g phase shared spawned) :
    (shared = s.shared ∧ spawned = []) ∨
      (shared = s.shared.setFlight g.cache g.key (some s.threads.length) ∧
        spawned = [.flight ⟨g.cache, g.key, s.clock, .created⟩]) := by
  cases h with
  | create => exact .inr ⟨rfl, rfl⟩
  | _ => exact .inl ⟨rfl, rfl⟩

theorem Steps.origin {cfg : Nat → Config τ} {s' : System τ} {input : Input τ} {output : Observation}
    (h : Steps cfg s input output s') {j : Nat}
    {t : Thread τ} (ht : s'.threads[j]? = some t) : Origin cfg s output s'.shared j input t := by
  cases h with
  | idle | expire => exact .kept ht
  | get cache key =>
    rcases getElem?_snoc.mp ht with ht | ⟨-, rfl⟩
    · exact .kept ht
    · exact .get cache key
  | mutate cache kind keys =>
    rcases getElem?_snoc.mp ht with ht | ⟨-, rfl⟩
    · exact .kept ht
    · exact .mutation cache kind keys
  | @getMove index answer g phase shared spawned thread move =>
    have hset : (s.threads.set index (.get { g with phase }))[j]? = some t →
        Origin cfg s .silent shared j (.step index answer) t := by
      intro ht
      rcases Threads.cases_set ht with ⟨rfl, rfl⟩ | ⟨-, ht⟩
      · exact .getMoved thread move
      · exact .kept ht
    rcases move.frame with ⟨-, rfl⟩ | ⟨-, rfl⟩
    · exact hset (by simpa using ht)
    · rcases getElem?_snoc.mp ht with ht | ⟨hj, rfl⟩
      · exact hset ht
      · exact .created thread (by simpa using hj)
  | flightMove thread move =>
    rcases Threads.cases_set ht with ⟨rfl, rfl⟩ | ⟨-, ht⟩
    · exact .flightMoved thread move
    · exact .kept ht
  | mutationMove thread move =>
    rcases Threads.cases_set ht with ⟨rfl, rfl⟩ | ⟨-, ht⟩
    · exact .mutationMoved thread move
    · exact .kept ht

/-! ## Shared memory after a step -/

/-- What an input does to the shared memory, and what is seen of it. -/
inductive Changes (cfg : Nat → Config τ) (s : System τ) : Input τ → Observation → Shared → Prop
  | keep {input} : Changes cfg s input .silent s.shared
  | lock {input} (cache stripe : Nat) (holder : Option Nat) :
      Changes cfg s input .silent (s.shared.setLock cache stripe holder)
  | group {input} (cache : Nat) (key : String) (flight : Option Nat) :
      Changes cfg s input .silent (s.shared.setFlight cache key flight)
  | delete {input} (keys : List String) : Changes cfg s input .silent (s.shared.delete keys)
  | set {input} (key : String) (payload : List UInt8) :
      Changes cfg s input .silent (s.shared.write key ⟨envelopeValue :: payload, s.clock, none⟩)
  | bump {index : Nat} {answer : Answer τ} {m : Mutation τ} {stripe todo}
      (thread : s.threads[index]? = some (.mutation m))
      (phase : m.phase = .bumping (stripe :: todo)) :
      Changes cfg s (.step index answer) (.bumps m.cache stripe) (s.shared.bump m.cache stripe)
  | apply {input key version} (newer : s.shared.versions key < version) :
      Changes cfg s input (.applied key)
        { (s.shared.delete [key]) with versions := Function.update s.shared.versions key version }
  | store {index : Nat} {answer : Answer τ} {f : Flight τ} {load envelope}
      (thread : s.threads[index]? = some (.flight f)) (phase : f.phase = .writing load envelope)
      (admitted : load.admitted (cfg f.cache) (s.shared.versions f.key) = true) :
      Changes cfg s (.step index answer) (.stores f.cache f.key f.createdAt load.startedAt)
        (s.shared.write f.key ⟨envelope, s.clock, some load.startedAt⟩)

theorem Steps.changes {cfg : Nat → Config τ} {s' : System τ} {input : Input τ}
    {output : Observation}
    (h : Steps cfg s input output s') : Changes cfg s input output s'.shared := by
  cases h with
  | idle | get | mutate => exact .keep
  | expire key => exact .delete [key]
  | getMove _ move =>
    rcases move.frame with ⟨rfl, -⟩ | ⟨rfl, -⟩
    · exact .keep
    · exact .group ..
  | flightMove thread move =>
    cases move with
    | lock | unlock => exact .lock ..
    | write phase admitted => exact .store thread phase admitted
    | finish _ removed =>
      rcases removed with rfl | rfl
      · exact .keep
      · exact .group ..
    | _ => exact .keep
  | mutationMove thread move =>
    cases move with
    | apply _ applies | answer _ _ applies =>
      cases applies with
      | keep => exact .keep
      | apply newer => exact .apply newer
    | lock | unlock => exact .lock ..
    | bump phase => exact .bump thread phase
    | forget => exact .group ..
    | act _ acts | set _ _ acts =>
      cases acts with
      | keep => exact .keep
      | write => exact .set ..
      | delete => exact .delete _
    | _ => exact .keep

end Keelith.Cache

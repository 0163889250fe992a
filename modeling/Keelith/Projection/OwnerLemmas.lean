import Keelith.Lib.Replay
import Keelith.Lib.Run
import Keelith.Projection.Owner

/-!
# What the owner's operations do

* `OpEffect`: all that one operation can do, with the guards under which it does it.
* `LogInv commits source`: the source against the list of all its commits. The rows are the commits
  replayed, the log is a tail of them, and the `n`-th carries the cursors of `n - 1` and `n`.
-/

namespace Keelith.Projection.Owner

/-! ## What one operation does -/

variable {retention chunkBudget : Int} {schema : Schema} {source : Source}
  {commits : List DeltaBatch} {n : Nat} {after : UInt64}

/-- What `New` builds. -/
theorem newSource_ok (h : newSource schema retention chunkBudget = .ok source) :
    schema.validate = .ok () ∧ 0 < retention ∧ 0 < chunkBudget ∧ chunkBudget ≤ maxChunkBudget ∧
      source = { schema, retention := retention.toNat, chunkBudget := chunkBudget.toNat,
                 queueBudget := min retention.toNat maxLiveQueueBudget } := by
  unfold newSource at h
  split at h
  · cases h
  next hschema =>
    split at h
    · cases h
    next hbounds =>
      simp only [Bool.or_eq_true, decide_eq_true_eq, not_or, not_le, not_lt] at hbounds
      exact ⟨hschema, hbounds.1.1.1, hbounds.1.2, hbounds.2, (Except.ok.inj h).symm⟩

/-- The source time of a commit. -/
def Op.sourceTime : Op → Option Time
  | .seed _ sourceTime | .commit _ sourceTime | .replace _ sourceTime => some sourceTime
  | _ => none

/-- All that one operation can do. -/
inductive OpEffect (source : Source) : Op → Source → Prop
  | same {op : Op} : OpEffect source op source
  | committed {op : Op} (mutations : List Mutation) (sourceTime : Time)
      (hop : op.sourceTime = some sourceTime) (hoffset : source.offset ≠ maxUint64)
      (hvalid : (source.batch mutations sourceTime).validate = .ok ()) :
      OpEffect source op (source.committed mutations sourceTime)
  | opened (ctx : Context) (request : SubscribeRequest) (created : Session)
      (hrequest : request.validate = .ok ()) (hoffset : source.offset ≠ 0)
      (hcreated : source.openSession request = .ok created) :
      OpEffect source (.open ctx request) { source with sessions := source.sessions ++ [created] }
  | closed : OpEffect source .close source.close
  | compacted (ctx : Context) (request : Source.CompactRequest) (deleted : Nat) :
      OpEffect source (.compact ctx request) { source with log := source.log.drop deleted }
  | read (i : Nat) (pick : Pick) (current after : Session) (result : Except Error Frame)
      (hcurrent : source.sessions[i]? = some current)
      (hnext : current.next pick = some (result, after)) :
      OpEffect source (.next i pick) (source.modifySession i fun _ => after)
  | unsubscribed (i : Nat) : OpEffect source (.unsubscribe i) (source.unsubscribe i)
  | terminated (i : Nat) (err : Error) : OpEffect source (.terminate i err) (source.terminate i err)

theorem commitLocked_effect {op : Op} {sourceTime : Time} (hop : op.sourceTime = some sourceTime)
    (source : Source) (mutations : List Mutation) :
    OpEffect source op (source.commitLocked mutations sourceTime).2 := by
  unfold Source.commitLocked
  split
  · exact .same
  split
  · exact .same
  next hoffset =>
    split
    · exact .same
    next hvalid => exact .committed _ _ hop (by simpa using hoffset) hvalid

/-- `Open` fails and leaves the source, or appends the session it created. -/
theorem open_cases (source : Source) (ctx : Context) (request : SubscribeRequest) :
    (∃ err, source.open ctx request = (.error err, source)) ∨
    ∃ created, request.validate = .ok () ∧ source.offset ≠ 0 ∧
      source.openSession request = .ok created ∧ source.open ctx request =
        (.ok source.sessions.length, { source with sessions := source.sessions ++ [created] }) := by
  unfold Source.open
  split
  · exact .inl ⟨_, rfl⟩
  split
  · exact .inl ⟨_, rfl⟩
  next hrequest =>
    split
    · exact .inl ⟨_, rfl⟩
    split
    · exact .inl ⟨_, rfl⟩
    split
    · exact .inl ⟨_, rfl⟩
    next hoffset =>
      split
      · exact .inl ⟨_, rfl⟩
      next created hcreated =>
        exact .inr ⟨created, hrequest, by simpa using hoffset, hcreated, rfl⟩

/-- `CompactProjection` leaves the source, or drops some of the first entries that are at most a
target. -/
theorem compactProjection_cases (source : Source) (ctx : Context)
    (request : Source.CompactRequest) : (source.compactProjection ctx request).2 = source ∨
    ∃ target, (source.compactProjection ctx request).2 = { source with
      log := source.log.drop (source.deletable (min target source.protectedOffset)
        request.maxEntries.toNat) } := by
  unfold Source.compactProjection
  split
  · exact .inl rfl
  split
  · exact .inl rfl
  split
  · exact .inl rfl
  split
  · exact .inl rfl
  split
  · exact .inl rfl
  split
  · exact .inl rfl
  · exact .inr ⟨_, rfl⟩

theorem exec_effect (source : Source) (op : Op) : OpEffect source op (source.exec op) := by
  cases op with
  | seed mutations sourceTime | commit mutations sourceTime =>
    simp only [Source.exec, Source.seed, Source.commit]
    split
    · exact .same
    split
    · exact .same
    split
    · exact .same
    · exact commitLocked_effect rfl ..
  | replace rows sourceTime =>
    simp only [Source.exec, Source.replace]
    split
    · exact .same
    split
    · exact .same
    split
    · exact commitLocked_effect rfl ..
    split
    · exact .same
    · exact commitLocked_effect rfl ..
  | compact ctx request =>
    simp only [Source.exec]
    obtain h | ⟨target, h⟩ := compactProjection_cases source ctx request
    · rw [h]; exact .same
    · rw [h]; exact .compacted ctx request _
  | close => exact .closed
  | «open» ctx request =>
    simp only [Source.exec]
    obtain ⟨err, h⟩ | ⟨created, hrequest, hoffset, hcreated, h⟩ := open_cases source ctx request
    · rw [h]; exact .same
    · rw [h]; exact .opened ctx request created hrequest hoffset hcreated
  | next session pick =>
    simp only [Source.exec, Source.next]
    split
    · exact .same
    next result after hnext =>
      obtain ⟨current, hcurrent, hnext⟩ := Option.bind_eq_some_iff.mp hnext
      exact .read session pick current after result hcurrent hnext
  | unsubscribe session => exact .unsubscribed session
  | terminate session err => exact .terminated session err

/-- `Next` returns the first pending frame, or fails and leaves the session. -/
theorem next_cases {session after : Session} {pick : Pick} {result : Except Error Frame}
    (h : session.next pick = some (result, after)) :
    (∃ err, result = .error err ∧ after = session) ∨
    ∃ frame, result = .ok frame ∧ session.pending = frame :: after.pending ∧
      after.subscribed = session.subscribed ∧ after.runErr = session.runErr := by
  cases pick with
  | done =>
    simp only [Session.next] at h
    split at h
    · cases h
    · cases h; exact .inl ⟨_, rfl, rfl⟩
  | canceled cause => cases h; exact .inl ⟨_, rfl, rfl⟩
  | initial =>
    simp only [Session.next] at h
    split at h
    · cases h
    next frame hget =>
      cases h
      obtain ⟨hlt, rfl⟩ := List.getElem?_eq_some_iff.mp hget
      refine .inr ⟨_, rfl, ?_, rfl, rfl⟩
      rw [Session.pending, Session.pending, List.drop_eq_getElem_cons hlt, List.cons_append]
  | live =>
    simp only [Session.next] at h
    split at h
    · cases h
    next hindex =>
      split at h
      · cases h
      next frame rest hlive =>
        cases h
        refine .inr ⟨frame, rfl, ?_, rfl, rfl⟩
        have hdrop : session.initial.drop session.index = [] :=
          List.drop_of_length_le (by omega)
        rw [Session.pending, Session.pending, hlive, hdrop]
        rfl

/-- A published frame reaches a subscriber, unless its queue is full. -/
theorem publish_cases (queueBudget : Nat) (frame : Frame) (session : Session) :
    (session.subscribed = false ∧ session.publish queueBudget frame = session) ∨
    (session.subscribed = true ∧ session.publish queueBudget frame =
      { session with live := session.live ++ [frame] }) ∨
    (queueBudget ≤ session.live.length ∧ session.publish queueBudget frame =
      { session with subscribed := false }.terminate (.sentinel .errSlowSubscriber)) := by
  unfold Session.publish
  split
  next h => exact .inl ⟨by simpa using h, rfl⟩
  next h =>
    split
    next => exact .inr (.inl ⟨by simpa using h, rfl⟩)
    next hfull => exact .inr (.inr ⟨not_lt.mp hfull, rfl⟩)

/-! ## The log against all commits -/

/-- The rows after the first `n` commits. -/
def rowsAfter (commits : List DeltaBatch) (n : Nat) : Rows :=
  Replay.state (fun rows batch => applyMutations rows batch.mutations) ∅ commits n

/-- Log entries of consecutive commits, the first with the offset `n + 1`. -/
def numbered : Nat → List DeltaBatch → List LogEntry
  | _, [] => []
  | n, batch :: rest => ⟨UInt64.ofNat (n + 1), batch⟩ :: numbered (n + 1) rest

/-- The source after these commits. -/
structure LogInv (commits : List DeltaBatch) (source : Source) : Prop where
  offset : source.offset.toNat = commits.length
  rows : source.rows = rowsAfter commits commits.length
  schema : ∀ batch ∈ commits, batch.schema = source.schema
  cursors : ∀ n batch, Replay.Next commits n batch →
    batch.previous = encodeCursor (UInt64.ofNat n) ∧
      batch.cursor = encodeCursor (UInt64.ofNat (n + 1))
  log : ∃ floor ≤ commits.length, source.log = numbered floor (commits.drop floor)

/-- A new source has no commits. -/
theorem LogInv.new (h : newSource schema retention chunkBudget = .ok source) :
    LogInv [] source := by
  obtain ⟨-, -, -, -, rfl⟩ := newSource_ok h
  refine ⟨rfl, rfl, fun batch hbatch => ?_, fun n batch hnext => ?_, 0, le_rfl, rfl⟩
  · cases hbatch
  · cases hnext

theorem numbered_append (n : Nat) (first second : List DeltaBatch) :
    numbered n (first ++ second) = numbered n first ++ numbered (n + first.length) second := by
  induction first generalizing n with
  | nil => rfl
  | cons batch rest ih =>
    rw [List.cons_append, numbered, numbered, ih, List.cons_append, List.length_cons, Nat.add_assoc,
      Nat.add_comm 1]

theorem drop_numbered (n k : Nat) (commits : List DeltaBatch) :
    (numbered n commits).drop k = numbered (n + k) (commits.drop k) := by
  induction k generalizing n commits with
  | zero => rfl
  | succ k ih =>
    cases commits with
    | nil => rfl
    | cons batch rest =>
      rw [numbered, List.drop_succ_cons, List.drop_succ_cons, ih, Nat.add_assoc, Nat.add_comm 1]

theorem batches_numbered (n : Nat) (commits : List DeltaBatch) :
    (numbered n commits).map (·.batch) = commits := by
  induction commits generalizing n with
  | nil => rfl
  | cons batch rest ih => rw [numbered, List.map_cons, ih]

theorem offsets_numbered (h : n + commits.length < 2 ^ 64) :
    (numbered n commits).map (·.offset.toNat) = List.range' (n + 1) commits.length := by
  induction commits generalizing n with
  | nil => rfl
  | cons batch rest ih =>
    rw [List.length_cons] at h
    rw [numbered, List.map_cons, ih (by omega), List.length_cons, List.range'_succ,
      toNat_ofNat_lt (by omega)]

theorem drop_log (n : Nat) (commits : List DeltaBatch) (k : Nat) : ∃ floor ≤ commits.length,
      (numbered n (commits.drop n)).drop k = numbered floor (commits.drop floor) := by
  by_cases hk : n + k ≤ commits.length
  · exact ⟨n + k, hk, by rw [drop_numbered, List.drop_drop]⟩
  · refine ⟨commits.length, le_rfl, ?_⟩
    rw [drop_numbered, List.drop_drop, List.drop_of_length_le (by omega), List.drop_length]
    rfl

namespace LogInv

section

variable (h : LogInv commits source)

include h

/-- The offset as the number of commits. -/
theorem offset_eq : source.offset = UInt64.ofNat commits.length := by
  rw [← h.offset, UInt64.ofNat_toNat]

/-- Only the offset, the rows, the schema and the log matter. -/
theorem congr {after : Source} (hoffset : after.offset = source.offset)
    (hrows : after.rows = source.rows) (hschema : after.schema = source.schema)
    (hlog : after.log = source.log) : LogInv commits after where
  offset := by rw [hoffset]; exact h.offset
  rows := by rw [hrows]; exact h.rows
  schema := by rw [hschema]; exact h.schema
  cursors := h.cursors
  log := by rw [hlog]; exact h.log

theorem committed {mutations : List Mutation} {sourceTime : Time}
    (hoffset : source.offset ≠ maxUint64) :
    LogInv (commits ++ [source.batch mutations sourceTime])
      (source.committed mutations sourceTime) where
  offset := by
    rw [List.length_append, ← h.offset]
    exact toNat_succ hoffset
  rows := by
    rw [List.length_append]
    show applyMutations source.rows mutations = rowsAfter _ (commits.length + 1)
    rw [rowsAfter, Replay.state_snoc, ← rowsAfter, ← h.rows]
    rfl
  schema := forall_mem_snoc.mpr ⟨h.schema, rfl⟩
  cursors := by
    intro n batch hnext
    obtain hnext | ⟨rfl, rfl⟩ := getElem?_snoc.mp hnext
    · exact h.cursors n batch hnext
    · rw [UInt64.ofNat_add, ← h.offset_eq]
      exact ⟨rfl, rfl⟩
  log := by
    obtain ⟨floor, hfloor, hlog⟩ := h.log
    have hsnoc : source.log ++ [⟨source.offset + 1, source.batch mutations sourceTime⟩] =
        numbered floor ((commits ++ [source.batch mutations sourceTime]).drop floor) := by
      rw [List.drop_append_of_le_length hfloor, numbered_append, ← hlog, List.length_drop,
        Nat.add_sub_cancel' hfloor, h.offset_eq, numbered, UInt64.ofNat_add]
      rfl
    have hle : floor ≤ (commits ++ [source.batch mutations sourceTime]).length := by
      rw [List.length_append]; omega
    show ∃ floor ≤ _, Source.retain source.retention _ = _
    unfold Source.retain
    split
    · rw [hsnoc]; exact drop_log _ _ _
    · exact ⟨floor, hle, hsnoc⟩

/-- Compaction keeps the commits. -/
theorem compacted (deleted : Nat) :
    LogInv commits { source with log := source.log.drop deleted } := by
  obtain ⟨floor, -, hlog⟩ := h.log
  refine ⟨h.offset, h.rows, h.schema, h.cursors, ?_⟩
  rw [hlog]
  exact drop_log _ _ deleted

/-! ## What a session starts with -/

/-- The floor of the log. -/
theorem retentionFloor : source.retentionFloor.toNat ≤ commits.length ∧
      source.log = numbered source.retentionFloor.toNat
        (commits.drop source.retentionFloor.toNat) := by
  obtain ⟨floor, hfloor, hlog⟩ := h.log
  have hlt := toNat_lt_two_pow source.offset
  rw [h.offset] at hlt
  suffices hfloor' : source.retentionFloor.toNat = floor by rw [hfloor']; exact ⟨hfloor, hlog⟩
  unfold Source.retentionFloor
  cases hdrop : commits.drop floor with
  | nil =>
    rw [hdrop, numbered] at hlog
    have := List.drop_eq_nil_iff.mp hdrop
    rw [hlog]
    rw [h.offset]
    omega
  | cons batch rest =>
    rw [hdrop, numbered] at hlog
    have hlength := congrArg List.length hdrop
    rw [hlog]
    rw [UInt64.ofNat_add]
    show (UInt64.ofNat floor + 1 - 1).toNat = floor
    rw [UInt64.add_sub_cancel, toNat_ofNat_lt (by omega)]

end

end LogInv

theorem lt_of_mem_numbered (hlt : n + commits.length < 2 ^ 64)
    {entry : LogEntry} (h : entry ∈ numbered n commits) : n < entry.offset.toNat := by
  have hmem : entry.offset.toNat ∈ (numbered n commits).map (·.offset.toNat) :=
    List.mem_map_of_mem h
  rw [offsets_numbered hlt, List.mem_range'_1] at hmem
  omega

/-- The entries of consecutive commits above an offset that is not below the first. -/
theorem filter_numbered (hn : n ≤ after.toNat) (hlt : n + commits.length < 2 ^ 64) :
    (numbered n commits).filter (fun entry => entry.offset > after) =
      (numbered n commits).drop (after.toNat - n) := by
  induction commits generalizing n with
  | nil => simp [numbered]
  | cons batch rest ih =>
    rw [List.length_cons] at hlt
    by_cases hle : n + 1 ≤ after.toNat
    · have hskip : ¬ UInt64.ofNat (n + 1) > after := by
        rw [gt_iff_lt, UInt64.lt_iff_toNat_lt, toNat_ofNat_lt (by omega)]
        omega
      rw [numbered, List.filter_cons, if_neg (by simpa using hskip), ih hle (by omega),
        show after.toNat - n = after.toNat - (n + 1) + 1 by omega, List.drop_succ_cons]
    · -- The first entry is above the offset, so all are.
      obtain rfl : n = after.toNat := by omega
      rw [Nat.sub_self, List.drop_zero, List.filter_eq_self]
      intro entry hentry
      have := lt_of_mem_numbered (by simpa using hlt) hentry
      simpa [UInt64.lt_iff_toNat_lt] using this

/-- A resumed session replays exactly the commits after its cursor. -/
theorem LogInv.replay (h : LogInv commits source) (hfloor : ¬ after < source.retentionFloor) :
    source.replay after = (commits.drop after.toNat).map .delta := by
  obtain ⟨hle, hlog⟩ := h.retentionFloor
  have hlt := toNat_lt_two_pow source.offset
  rw [h.offset] at hlt
  have hfloor' : source.retentionFloor.toNat ≤ after.toNat := by
    rw [UInt64.lt_iff_toNat_lt] at hfloor
    omega
  have hlength : source.retentionFloor.toNat +
      (commits.drop source.retentionFloor.toNat).length < 2 ^ 64 := by
    rw [List.length_drop]; omega
  rw [Source.replay, hlog, filter_numbered hfloor' hlength, drop_numbered, List.drop_drop,
    Nat.add_sub_cancel' hfloor']
  conv_rhs => rw [← batches_numbered after.toNat (commits.drop after.toNat), List.map_map]
  rfl

end Keelith.Projection.Owner

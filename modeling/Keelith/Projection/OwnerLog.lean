import Keelith.Projection.OwnerLemmas

/-!
# The owner's log and its sessions

The owner source under any interleaving of `Seed`, `Commit`, `Replace`, `Open`, `Close`,
`CompactProjection` and the `Next` of its sessions, with the list of all commits and, for each
session, what it asked for and what it has read.

* `Ledger`: the source, the commits, and a `Reader` for each session.
* `Stream`: what a session has read and will read are the deltas after its cursor, in order, or a
  gap.
* `owner_log_faithful`: the log, the rows, compaction and the sessions of every reachable state.
* `replace_exact`: the delta of `Replace` is the difference of the rows.
-/

namespace Keelith.Projection.Owner

/-- What a session was opened with, and the frames that its `Next` has returned. -/
structure Reader where
  /-- The offset of the cursor, or `none` for a forced snapshot. -/
  cursor : Option UInt64
  /-- The retention floor when the session was opened. -/
  floor : UInt64
  received : List Frame := []

/-- The source with all commits since its seed, and the readers of its sessions. -/
structure Ledger where
  source : Source
  commits : List DeltaBatch
  readers : List Reader

namespace Ledger

/-- The batch of a commit: the last entry of the log, if the offset moved. -/
def committedBatch (before after : Source) : List DeltaBatch :=
  if after.offset == before.offset then [] else (after.log.getLast?.map (·.batch)).toList

/-- The readers after a step. -/
def nextReaders (l : Ledger) : Op → List Reader
  | .open ctx request =>
    match (l.source.open ctx request).1 with
    | .error _ => l.readers
    | .ok _ =>
      l.readers ++ [{ cursor := if request.forceSnapshot then none else decodeCursor request.after,
                      floor := l.source.retentionFloor }]
  | .next session pick =>
    match l.source.sessions[session]?.bind fun current => current.next pick with
    | some (.ok frame, _) =>
      l.readers.modify session fun reader => { reader with received := reader.received ++ [frame] }
    | _ => l.readers
  | _ => l.readers

/-- One step of the callers. -/
def exec (l : Ledger) (op : Op) : Ledger where
  source := l.source.exec op
  commits := l.commits ++ committedBatch l.source (l.source.exec op)
  readers := l.nextReaders op

/-- A new source. -/
def Init (l : Ledger) : Prop :=
  (∃ schema retention chunkBudget, newSource schema retention chunkBudget = .ok l.source) ∧
    l.commits = [] ∧ l.readers = []

/-- The owner under any callers. -/
def machine : Machine Ledger Op Unit where
  init := Init
  exec l op := ((), l.exec op)
  may _ _ _ := True

end Ledger

/-! ## What a session reads -/

/-- The deltas of the commits above one offset up to another. -/
def deltas (commits : List DeltaBatch) (lower upper : Nat) : List Frame :=
  ((commits.take upper).drop lower).map .delta

/-- What the reader of a session has and will get: after the cursor, the deltas in order, up to the
last commit as long as the session is subscribed; for a cursor below the floor, the gap. -/
def Stream (commits : List DeltaBatch) (session : Session) (reader : Reader) : Prop :=
  ∀ cursor, reader.cursor = some cursor →
    if cursor < reader.floor then
      reader.received ++ session.pending =
        [.gap (encodeCursor cursor) (encodeCursor reader.floor)] ∧
        session.subscribed = false
    else
      ∃ upper, cursor.toNat ≤ upper ∧ upper ≤ commits.length ∧
        reader.received ++ session.pending = deltas commits cursor.toNat upper ∧
        (session.subscribed = true → upper = commits.length)

variable {commits : List DeltaBatch} {created : Session} {request : SubscribeRequest}
  {source : Source}

theorem deltas_length (commits : List DeltaBatch) (lower : Nat) :
    deltas commits lower commits.length = (commits.drop lower).map .delta := by
  rw [deltas, List.take_length]

/-! ## What a step does to a session -/

/-- What a step may do to a session and its reader: a subscriber gets the deltas of the commits, and
no session loses a frame. A session stops when it is closed, or at a commit that finds its queue
full. -/
structure Moves (queueBudget : Nat) (op : Op) (i : Nat) (new : List DeltaBatch)
    (session session' : Session) (reader reader' : Reader) : Prop where
  cursor : reader'.cursor = reader.cursor
  floor : reader'.floor = reader.floor
  frames : reader'.received ++ session'.pending = reader.received ++ session.pending ++
    if session'.subscribed then new.map .delta else []
  stays : session'.subscribed = true → session.subscribed = true
  ends : session.subscribed = true → session'.subscribed = false →
    op = .close ∨ op = .unsubscribe i ∨ new ≠ [] ∧ queueBudget ≤ session.live.length
  fails : session.runErr = none → session'.runErr ≠ none →
    (∃ err, op = .terminate i err) ∨ new ≠ [] ∧ queueBudget ≤ session.live.length

section

variable {session session' : Session} {reader reader' : Reader} {queueBudget i : Nat} {op : Op}
  {new : List DeltaBatch}

/-- A step without a commit that neither ends the session nor adds to it. -/
theorem Moves.of_frames (hcursor : reader'.cursor = reader.cursor)
    (hfloor : reader'.floor = reader.floor)
    (hframes : reader'.received ++ session'.pending = reader.received ++ session.pending)
    (hsub : session'.subscribed = session.subscribed) (herr : session'.runErr = session.runErr) :
    Moves queueBudget op i [] session session' reader reader' where
  cursor := hcursor
  floor := hfloor
  frames := by rw [hframes, List.map_nil, ite_self, List.append_nil]
  stays h := hsub ▸ h
  ends h h' := by rw [hsub, h] at h'; cases h'
  fails h h' := absurd (herr.trans h) h'

theorem Moves.refl : Moves queueBudget op i [] session session reader reader :=
  .of_frames rfl rfl rfl rfl rfl

/-- The first part of the end of a session. -/
theorem Moves.unsubscribe (hop : op = .close ∨ op = .unsubscribe i) :
    Moves queueBudget op i [] session { session with subscribed := false } reader reader where
  cursor := rfl
  floor := rfl
  frames := (List.append_nil _).symm
  stays := nofun
  ends _ _ := or_assoc.mp (.inl hop)
  fails h h' := absurd h h'

theorem Moves.terminate (err : Error) :
    Moves queueBudget (.terminate i err) i [] session (session.terminate err) reader reader where
  cursor := rfl
  floor := rfl
  frames := by rw [List.map_nil, ite_self, List.append_nil]; rfl
  stays := id
  ends h h' := absurd h (by rw [← Bool.not_eq_true] at h'; exact h')
  fails _ _ := .inl ⟨err, rfl⟩

/-- A commit adds its delta to the stream of a subscriber. -/
theorem Moves.publish (batch : DeltaBatch) : Moves queueBudget op i [batch] session
    (session.publish queueBudget (.delta batch)) reader reader := by
  rcases publish_cases queueBudget (.delta batch) session with
    ⟨hsub, h⟩ | ⟨hsub, h⟩ | ⟨hfull, h⟩ <;> rw [h]
  · exact ⟨rfl, rfl, by simp [hsub], id, fun h' _ => absurd h' (by simp [hsub]),
      fun h h' => absurd h h'⟩
  · exact ⟨rfl, rfl, by simp [hsub, Session.pending], fun _ => hsub,
      fun _ h' => absurd h' (by simp [hsub]), fun h h' => absurd h h'⟩
  · have hend : [batch] ≠ [] ∧ queueBudget ≤ session.live.length := ⟨by simp, hfull⟩
    exact ⟨rfl, rfl, (List.append_nil _).symm, (fun h => by cases h),
      fun _ _ => .inr (.inr hend), fun _ _ => .inr hend⟩

/-- `Next` moves the first pending frame to the frames received. -/
theorem Moves.next {pick : Pick} {frame : Frame}
    (hnext : session.next pick = some (.ok frame, session')) :
    Moves queueBudget op i [] session session' reader
      { reader with received := reader.received ++ [frame] } := by
  obtain ⟨err, herr, -⟩ | ⟨first, hfirst, hpending, hsub, herr⟩ := next_cases hnext
  · cases herr
  · cases hfirst
    refine .of_frames rfl rfl ?_ hsub herr
    rw [hpending, List.append_assoc, List.singleton_append]

/-- The deltas of the new commits extend the stream. -/
theorem Stream.moves (h : Stream commits session reader)
    (hmoves : Moves queueBudget op i new session session' reader reader') :
    Stream (commits ++ new) session' reader' := by
  intro cursor hc
  rw [hmoves.cursor] at hc
  rw [hmoves.floor, hmoves.frames]
  have hstream := h cursor hc
  cases hsub : session'.subscribed with
  | true =>
    have hbefore := hmoves.stays hsub
    split at hstream
    next => rw [hstream.2] at hbefore; cases hbefore
    next hge =>
      obtain ⟨upper, hlower, hupper, hreads, hall⟩ := hstream
      obtain rfl := hall hbefore
      rw [if_neg hge]
      refine ⟨(commits ++ new).length, by simp; omega, le_rfl, ?_, fun _ => rfl⟩
      rw [if_pos rfl, hreads, deltas_length, deltas_length, List.drop_append_of_le_length hlower,
        List.map_append]
  | false =>
    rw [if_neg Bool.false_ne_true, List.append_nil]
    split at hstream
    next hlt => rw [if_pos hlt]; exact ⟨hstream.1, rfl⟩
    next hge =>
      obtain ⟨upper, hlower, hupper, hreads, -⟩ := hstream
      rw [if_neg hge]
      refine ⟨upper, hlower, by rw [List.length_append]; omega, ?_, nofun⟩
      rw [hreads, deltas, deltas, List.take_append_of_le_length hupper]

end

/-! ## Open -/

theorem encodeCursor_of_decode {cursor : Cursor} {offset : UInt64}
    (h : decodeCursor cursor = some offset) : encodeCursor offset = cursor := by
  unfold decodeCursor at h
  split at h
  · cases h
  split at h
  · cases h
  next value hvalue =>
    split at h
    next hsame =>
      cases h
      rw [Bool.and_eq_true, beq_iff_eq] at hsame
      exact hsame.2
    · cases h

/-- The session that `Open` creates for a cursor: the deltas after it, or the gap. -/
theorem openSession_cursor {cursor : UInt64} (hlog : LogInv commits source)
    (hforce : request.forceSnapshot = false)
    (hcursor : decodeCursor request.after = some cursor)
    (h : source.openSession request = .ok created) :
    cursor ≤ source.offset ∧ created.protectedAt = cursor ∧
      if cursor < source.retentionFloor then
        created.pending = [.gap (encodeCursor cursor) (encodeCursor source.retentionFloor)] ∧
          created.subscribed = false
      else created.pending = deltas commits cursor.toNat commits.length ∧
        created.subscribed = true := by
  simp only [Source.openSession, hforce, Bool.false_eq_true, if_false, hcursor] at h
  split at h
  · cases h
  next hle =>
    refine ⟨UInt64.not_lt.mp hle, ?_⟩
    split at h
    next hgap =>
      cases h
      rw [if_pos hgap, encodeCursor_of_decode hcursor]
      exact ⟨rfl, rfl, rfl⟩
    next hfloor =>
      cases h
      rw [if_neg hfloor, deltas_length, ← hlog.replay hfloor]
      exact ⟨rfl, List.append_nil _, rfl⟩

/-- The reader of a new session starts with its stream. -/
theorem Stream.opened (hlog : LogInv commits source)
    (h : source.openSession request = .ok created) : Stream commits created
      { cursor := if request.forceSnapshot then none else decodeCursor request.after
        floor := source.retentionFloor } := by
  intro cursor hc
  cases hforce : request.forceSnapshot with
  | true =>
    rw [hforce] at hc
    cases hc
  | false =>
    simp only [hforce] at hc
    obtain ⟨hle, -, hreads⟩ := openSession_cursor hlog hforce hc h
    have hle := UInt64.le_iff_toNat_le.mp hle
    rw [hlog.offset] at hle
    split at hreads
    next hgap => rw [if_pos hgap]; exact hreads
    next hfloor =>
      rw [if_neg hfloor]
      exact ⟨commits.length, hle, le_rfl, hreads.1, fun _ => rfl⟩

/-! ## The invariant -/

namespace Ledger

/-- The log against the commits, and the stream of each session. -/
structure Ok (l : Ledger) : Prop where
  log : LogInv l.commits l.source
  retention : 0 < l.source.retention
  bounded : l.source.log.length ≤ l.source.retention
  readers : l.readers.length = l.source.sessions.length
  streams : ∀ (i : Nat) session reader, l.source.sessions[i]? = some session →
    l.readers[i]? = some reader →
    Stream l.commits session reader

variable {l : Ledger}

theorem Init.ok (h : Init l) : Ok l := by
  obtain ⟨⟨schema, retention, chunkBudget, hnew⟩, hcommits, hreaders⟩ := h
  obtain ⟨-, hretention, -, -, hsource⟩ := newSource_ok hnew
  refine ⟨by rw [hcommits]; exact LogInv.new hnew, ?_, ?_, ?_, ?_⟩
  · simpa [hsource] using hretention
  · simp [hsource]
  · simp [hsource, hreaders]
  · simp [hsource]

theorem length_retain (retention : Nat) (log : List LogEntry) :
    (Source.retain retention log).length ≤ retention := by
  unfold Source.retain
  split
  · rw [List.length_drop]
    omega
  · omega

/-- The entry of a commit is retained. -/
theorem getLast?_retain {retention : Nat} (h : 0 < retention) (log : List LogEntry)
    (entry : LogEntry) : (Source.retain retention (log ++ [entry])).getLast? = some entry := by
  unfold Source.retain
  split
  · rw [List.getLast?_drop, if_neg, List.getLast?_concat]
    omega
  · exact List.getLast?_concat

theorem committedBatch_of_eq {before after : Source} (h : after.offset = before.offset) :
    committedBatch before after = [] := by
  rw [committedBatch, h, beq_self_eq_true, if_pos rfl]

theorem committedBatch_committed (hretention : 0 < source.retention) (mutations : List Mutation)
    (sourceTime : Time) :
    committedBatch source (source.committed mutations sourceTime) =
      [source.batch mutations sourceTime] := by
  have hne : ((source.committed mutations sourceTime).offset == source.offset) = false := by
    rw [beq_eq_false_iff_ne]
    show source.offset + 1 ≠ source.offset
    grind
  have hlast : (source.committed mutations sourceTime).log.getLast? =
      some ⟨source.offset + 1, source.batch mutations sourceTime⟩ := getLast?_retain hretention _ _
  rw [committedBatch, hne, hlast]
  rfl

/-- What a step does to each session and its reader. -/
def Follows (l : Ledger) (op : Op) : Prop :=
  ∀ (i : Nat) session reader, l.source.sessions[i]? = some session → l.readers[i]? = some reader →
    ∃ session' reader' new, (l.exec op).commits = l.commits ++ new ∧
      (l.exec op).source.sessions[i]? = some session' ∧ (l.exec op).readers[i]? = some reader' ∧
      Moves l.source.queueBudget op i new session session' reader reader'

section

variable {op : Op} {after : Source} (hafter : l.source.exec op = after)

include hafter

theorem commits_exec : (l.exec op).commits = l.commits ++ committedBatch l.source after := by
  rw [exec, hafter]

theorem commits_exec_of_eq (hoffset : after.offset = l.source.offset) :
    (l.exec op).commits = l.commits := by
  rw [commits_exec hafter, committedBatch_of_eq hoffset, List.append_nil]

/-- Each session changes on its own, and nothing is read. -/
theorem Follows.of_sessions {new : List DeltaBatch} (f : Nat → Session → Session)
    (hcommits : committedBatch l.source after = new) (hreaders : l.nextReaders op = l.readers)
    (hsessions : ∀ i, after.sessions[i]? = l.source.sessions[i]?.map (f i))
    (hmoves : ∀ i session reader,
      Moves l.source.queueBudget op i new session (f i session) reader reader) : l.Follows op := by
  intro i session reader hs hr
  refine ⟨f i session, reader, new, by rw [commits_exec hafter, hcommits], ?_, ?_,
    hmoves i session reader⟩
  · rw [exec, hafter, hsessions, hs, Option.map_some]
  · rw [exec, hreaders, hr]

/-- The operations that neither open a session nor read from one. -/
theorem Follows.of_effect (he : OpEffect l.source op after) (hretention : 0 < l.source.retention)
    (hreaders : l.nextReaders op = l.readers) (hopen : ∀ ctx request, op ≠ .open ctx request)
    (hnext : ∀ session pick, op ≠ .next session pick) : l.Follows op := by
  have hone (j : Nat) (f : Session → Session) (i : Nat) : (l.source.sessions.modify j f)[i]? =
      l.source.sessions[i]?.map fun session => if j = i then f session else session := by
    rw [List.getElem?_modify]
    rfl
  cases he with
  | same =>
    exact .of_sessions hafter (fun _ => id) (committedBatch_of_eq rfl) hreaders (by simp)
      fun _ _ _ => .refl
  | committed mutations sourceTime =>
    exact .of_sessions hafter (fun _ => Session.publish l.source.queueBudget _)
      (committedBatch_committed hretention ..) hreaders (fun i => List.getElem?_map ..)
      fun _ _ _ => .publish _
  | opened ctx request => exact absurd rfl (hopen ctx request)
  | closed =>
    exact .of_sessions hafter (fun _ session => { session with subscribed := false })
      (committedBatch_of_eq rfl) hreaders (fun i => List.getElem?_map ..)
      fun _ _ _ => .unsubscribe (.inl rfl)
  | compacted ctx request deleted =>
    exact .of_sessions hafter (fun _ => id) (committedBatch_of_eq rfl) hreaders (by simp)
      fun _ _ _ => .refl
  | read i pick => exact absurd rfl (hnext i pick)
  | unsubscribed j =>
    refine .of_sessions hafter _ (committedBatch_of_eq rfl) hreaders (hone j _)
      fun i session reader => ?_
    split
    next h => exact .unsubscribe (.inr (by rw [h]))
    next => exact .refl
  | terminated j err =>
    refine .of_sessions hafter _ (committedBatch_of_eq rfl) hreaders (hone j _)
      fun i session reader => ?_
    split
    next h => exact h ▸ .terminate err
    next => exact .refl

end

theorem follows_open (ctx : Context) (request : SubscribeRequest) :
    l.Follows (.open ctx request) := by
  intro i session reader hs hr
  refine ⟨session, reader, [], ?_, ?_, ?_, .refl⟩ <;>
    obtain ⟨err, he⟩ | ⟨created, -, -, -, he⟩ := open_cases l.source ctx request <;>
    simp only [exec, nextReaders, Source.exec, he, committedBatch_of_eq]
  · exact hs
  · exact getElem?_snoc.mpr (.inl hs)
  · exact hr
  · exact getElem?_snoc.mpr (.inl hr)

theorem follows_next (j : Nat) (pick : Pick) : l.Follows (.next j pick) := by
  intro i session reader hs hr
  simp only [exec, nextReaders, Source.exec, Source.next]
  cases hcurrent : l.source.sessions[j]?.bind fun current => current.next pick with
  | none => exact ⟨session, reader, [], by simp [committedBatch_of_eq], hs, hr, .refl⟩
  | some result =>
    obtain ⟨outcome, after⟩ := result
    obtain ⟨current, hget, hnext⟩ := Option.bind_eq_some_iff.mp hcurrent
    have hoffset : (l.source.modifySession j fun _ => after).offset = l.source.offset := rfl
    have hsession : (l.source.modifySession j fun _ => after).sessions[i]? =
        some (if j = i then after else session) := by
      simp [Source.modifySession, List.getElem?_modify, hs]
    by_cases hij : j = i
    swap
    · refine ⟨session, reader, [], by simp [committedBatch_of_eq hoffset], ?_, ?_, .refl⟩
      · rw [hsession, if_neg hij]
      · cases outcome <;> simp [hij, hr]
    subst hij
    obtain rfl := Option.mem_unique hget hs
    rw [if_pos rfl] at hsession
    cases outcome with
    | error err =>
      obtain ⟨_, -, rfl⟩ | ⟨frame, hframe, -⟩ := next_cases hnext
      · exact ⟨after, reader, [], by simp [committedBatch_of_eq hoffset], hsession, hr, .refl⟩
      · cases hframe
    | ok frame =>
      exact ⟨after, _, [], by simp [committedBatch_of_eq hoffset], hsession,
        by simp [hr], .next hnext⟩

namespace Ok

variable (h : Ok l) (op : Op)

include h

theorem follows : l.Follows op := by
  have he := exec_effect l.source op
  cases op with
  | «open» ctx request => exact follows_open ctx request
  | next i pick => exact follows_next i pick
  | seed | commit | replace | compact | close | unsubscribe | terminate =>
    exact .of_effect rfl he h.retention rfl (fun _ _ => Op.noConfusion) fun _ _ => Op.noConfusion

/-- The source after a step, against the commits. -/
theorem log_step : LogInv (l.exec op).commits (l.exec op).source ∧
    0 < (l.exec op).source.retention ∧
    (l.exec op).source.log.length ≤ (l.exec op).source.retention := by
  have hlog := h.log
  have hbounded := h.bounded
  have he := exec_effect l.source op
  have hsource : (l.exec op).source = l.source.exec op := rfl
  rw [hsource]
  generalize hafter : l.source.exec op = after at he
  cases he with
  | committed mutations sourceTime hop hoffset =>
    rw [commits_exec hafter, committedBatch_committed h.retention]
    exact ⟨hlog.committed hoffset, h.retention, length_retain _ _⟩
  | compacted ctx request deleted =>
    rw [commits_exec_of_eq hafter rfl]
    refine ⟨hlog.compacted deleted, h.retention, ?_⟩
    rw [List.length_drop]
    exact (Nat.sub_le _ _).trans hbounded
  | same | opened | closed | read | unsubscribed | terminated =>
    rw [commits_exec_of_eq hafter rfl]
    exact ⟨hlog.congr rfl rfl rfl rfl, h.retention, hbounded⟩

/-- `Open` adds a session with its reader and the stream of the reader. -/
theorem open_step (ctx : Context) (request : SubscribeRequest) (i : Nat) {session : Session}
    {reader : Reader} (hi : l.source.sessions.length ≤ i)
    (hs : (l.exec (.open ctx request)).source.sessions[i]? = some session)
    (hr : (l.exec (.open ctx request)).readers[i]? = some reader) :
    Stream (l.exec (.open ctx request)).commits session reader := by
  obtain ⟨err, he⟩ | ⟨created, -, -, hcreated, he⟩ := open_cases l.source ctx request <;>
    simp only [exec, nextReaders, Source.exec, he, committedBatch_of_eq, List.append_nil] at hs hr ⊢
  · exact absurd (List.getElem?_eq_some_iff.mp hs).1 (not_lt.mpr hi)
  · rw [getElem?_snoc, or_iff_right fun hold => absurd (List.getElem?_eq_some_iff.mp hold).1
      (not_lt.mpr hi)] at hs
    rw [getElem?_snoc, or_iff_right fun hold => absurd (List.getElem?_eq_some_iff.mp hold).1
      (not_lt.mpr (h.readers ▸ hi))] at hr
    obtain ⟨-, rfl⟩ := hs
    obtain ⟨-, rfl⟩ := hr
    exact .opened h.log hcreated

/-- Only `Open` adds a session. -/
theorem length_step : (l.exec op).readers.length = (l.exec op).source.sessions.length ∧
    ((∀ ctx request, op ≠ .open ctx request) →
      (l.exec op).source.sessions.length = l.source.sessions.length) := by
  have he := exec_effect l.source op
  have hsessions (hopen : ∀ ctx request, op ≠ .open ctx request) :
      (l.source.exec op).sessions.length = l.source.sessions.length := by
    generalize l.source.exec op = after at he
    cases he with
    | same | compacted => rfl
    | opened ctx request => exact absurd rfl (hopen ctx request)
    | committed | closed => exact List.length_map _
    | read | unsubscribed | terminated => exact List.length_modify ..
  refine ⟨?_, hsessions⟩
  cases op with
  | «open» ctx request =>
    obtain ⟨err, he⟩ | ⟨created, -, -, -, he⟩ := open_cases l.source ctx request <;>
      simp [exec, nextReaders, Source.exec, he, h.readers]
  | next i pick =>
    refine Eq.trans ?_ (hsessions fun _ _ => Op.noConfusion).symm
    simp only [exec, nextReaders]
    split <;> simp [h.readers]
  | _ => exact h.readers.trans (hsessions fun _ _ => Op.noConfusion).symm

/-- Every step keeps the invariant. -/
theorem step : Ok (l.exec op) := by
  obtain ⟨hlog, hretention, hbounded⟩ := h.log_step op
  obtain ⟨hreaders, hlength⟩ := h.length_step op
  refine ⟨hlog, hretention, hbounded, hreaders, fun i session' reader' hs' hr' => ?_⟩
  by_cases hi : i < l.source.sessions.length
  · have hbefore := List.getElem?_eq_getElem hi
    have hreader := List.getElem?_eq_getElem (h.readers ▸ hi)
    obtain ⟨session, reader, new, hcommits, hs, hr, hmoves⟩ := h.follows op i _ _ hbefore hreader
    obtain rfl := Option.mem_unique hs hs'
    obtain rfl := Option.mem_unique hr hr'
    rw [hcommits]
    exact (h.streams i _ _ hbefore hreader).moves hmoves
  · cases op with
    | «open» ctx request => exact h.open_step ctx request i (not_lt.mp hi) hs' hr'
    | _ =>
      rw [← hlength fun _ _ => Op.noConfusion] at hi
      exact absurd (List.getElem?_eq_some_iff.mp hs').1 hi

end Ok

theorem Ok.run {history : List (Event Ledger Op Unit)} (h : machine.Run history l) : Ok l :=
  h.invariant (I := fun _ l => Ok l) (fun _ hi => Init.ok hi) fun _ _ op hok _ => hok.step op

end Ledger

/-! ## Compaction -/

/-- The loop of `protectedOffsetLocked` over the sessions. -/
theorem protected_fold_le (sessions : List Session) (initial : UInt64) :
    let lowest := sessions.foldl (fun lowest session =>
      if session.subscribed && session.protectedAt < lowest then session.protectedAt else lowest)
        initial
    lowest ≤ initial ∧ ∀ session ∈ sessions, session.subscribed = true →
      lowest ≤ session.protectedAt := by
  induction sessions generalizing initial with
  | nil => exact ⟨UInt64.le_refl _, nofun⟩
  | cons first rest ih =>
    obtain ⟨hle, hrest⟩ := ih (if first.subscribed &&
      first.protectedAt < initial then first.protectedAt else initial)
    refine ⟨UInt64.le_trans hle ?_, List.forall_mem_cons.mpr ⟨fun hsub =>
      UInt64.le_trans hle ?_, hrest⟩⟩
    · split
      next h => exact UInt64.le_of_lt (by simpa using (Bool.and_eq_true_iff.mp h).2)
      next => exact UInt64.le_refl _
    · split
      next => exact UInt64.le_refl _
      next h =>
        rw [hsub, Bool.true_and, decide_eq_true_eq] at h
        exact UInt64.not_lt.mp h

theorem protectedOffset_le {session : Session} (hs : session ∈ source.sessions)
    (hsub : session.subscribed = true) : source.protectedOffset ≤ session.protectedAt :=
  (protected_fold_le source.sessions source.offset).2 session hs hsub

/-- What `CompactProjection` removes is at most the smallest offset of a subscriber. -/
theorem compact_removed_le (source : Source) (ctx : Context) (request : Source.CompactRequest)
    {entry : LogEntry}
    (hentry : entry ∈ source.log) (hgone : entry ∉ (source.compactProjection ctx request).2.log) :
    entry.offset ≤ source.protectedOffset := by
  obtain h | ⟨target, h⟩ := compactProjection_cases source ctx request <;> rw [h] at hgone
  · exact absurd hentry hgone
  · -- the entry is among the first ones that are at most the target
    generalize hlowest : min target source.protectedOffset = lowest at hgone
    rw [← List.take_append_drop (source.deletable lowest request.maxEntries.toNat) source.log,
      List.mem_append, or_iff_left hgone] at hentry
    have hwhile : entry ∈ source.log.takeWhile fun entry => entry.offset ≤ lowest := by
      refine (List.IsPrefix.subset ?_) hentry
      refine List.prefix_of_prefix_length_le (List.take_prefix _ _) (List.takeWhile_prefix _) ?_
      rw [List.length_take, Source.deletable]
      omega
    have hle := List.mem_takeWhile_imp hwhile
    rw [decide_eq_true_eq] at hle
    refine UInt64.le_trans hle ?_
    rw [← hlowest]
    exact Std.min_le_right

/-! ## Every reachable state -/

namespace Ledger

/-- The log, the rows, compaction and the sessions of a state. -/
structure Faithful (l : Ledger) : Prop where
  head : l.source.offset.toNat = l.commits.length
  cursors : ∀ n batch, l.commits[n]? = some batch →
    batch.previous = encodeCursor (UInt64.ofNat n) ∧
      batch.cursor = encodeCursor (UInt64.ofNat (n + 1))
  floor_le : l.source.retentionFloor.toNat ≤ l.commits.length
  -- the commits from the floor to the head, without holes
  retained : l.source.log.map (·.batch) = l.commits.drop l.source.retentionFloor.toNat
  offsets : l.source.log.map (·.offset.toNat) =
    List.range' (l.source.retentionFloor.toNat + 1)
      (l.commits.length - l.source.retentionFloor.toNat)
  bounded : l.source.log.length ≤ l.source.retention
  rows : l.source.rows = l.commits.foldl (fun rows batch => applyMutations rows batch.mutations) ∅
  compacts : ∀ ctx request entry, entry ∈ l.source.log →
    entry ∉ (l.source.compactProjection ctx request).2.log →
    ∀ session ∈ l.source.sessions, session.subscribed = true → entry.offset ≤ session.protectedAt
  opens : ∀ ctx request cursor i after, request.forceSnapshot = false →
    decodeCursor request.after = some cursor → l.source.open ctx request = (.ok i, after) →
    ∃ session, after.sessions[i]? = some session ∧ session.protectedAt = cursor ∧
      if cursor < l.source.retentionFloor then
        session.pending = [.gap (encodeCursor cursor) (encodeCursor l.source.retentionFloor)]
      else session.pending = deltas l.commits cursor.toNat l.commits.length ∧
        session.subscribed = true
  streams : ∀ (i : Nat) session reader, l.source.sessions[i]? = some session →
    l.readers[i]? = some reader →
    Stream l.commits session reader
  -- a session that has not ended returns what it has, in order
  reads : ∀ session ∈ l.source.sessions, session.runErr = none → ∀ pick result after,
    session.next pick = some (result, after) → (∃ cause, pick = .canceled cause) ∨
      ∃ frame, result = .ok frame ∧ session.pending = frame :: after.pending

theorem next_of_alive {session after : Session} {pick : Pick} {result : Except Error Frame}
    (halive : session.runErr = none) (h : session.next pick = some (result, after)) :
    (∃ cause, pick = .canceled cause) ∨
      ∃ frame, result = .ok frame ∧ session.pending = frame :: after.pending := by
  cases pick with
  | canceled cause => exact .inl ⟨cause, rfl⟩
  | done =>
    rw [Session.next, halive] at h
    cases h
  | initial | live =>
    obtain ⟨err, rfl, -⟩ | ⟨frame, hframe, hpending, -⟩ := next_cases h
    · -- these two cases of `Next` return a frame
      simp only [Session.next] at h
      repeat' split at h
      all_goals cases h
    · exact .inr ⟨frame, hframe, hpending⟩

/-- **The owner's log.** In every reachable state the retained deltas are the commits from the floor
to the head, at most as many as the retention; the rows are the fold of all commits; compaction
removes nothing above the offset of a subscriber; and a session opened with a cursor gets the deltas
after it once each and in order, or a gap below the floor. In every step a subscriber gets the new
deltas, and it stops only if it is closed or its queue is full. -/
theorem owner_log_faithful {history : List (Event Ledger Op Unit)} {l : Ledger}
    (h : machine.Run history l) : Faithful l ∧ ∀ e ∈ history, e.pre.Follows e.input := by
  have hok := Ok.run h
  refine ⟨?_, h.events fun _ l op hrun _ => (Ok.run hrun).follows op⟩
  obtain ⟨hfloor, hlog⟩ := hok.log.retentionFloor
  have hlt := toNat_lt_two_pow l.source.offset
  rw [hok.log.offset] at hlt
  exact {
    head := hok.log.offset
    cursors := hok.log.cursors
    floor_le := hfloor
    retained := by rw [hlog, batches_numbered]
    offsets := by
      rw [hlog, offsets_numbered (by rw [List.length_drop]; omega), List.length_drop]
    bounded := hok.bounded
    rows := by rw [hok.log.rows, rowsAfter, Replay.state, List.take_length]
    compacts := fun ctx request entry hentry hgone session hs hsub =>
      UInt64.le_trans (compact_removed_le l.source ctx request hentry hgone)
        (protectedOffset_le hs hsub)
    opens := by
      intro ctx request cursor i after hforce hcursor hopen
      obtain ⟨err, he⟩ | ⟨created, -, -, hcreated, he⟩ := open_cases l.source ctx request
      · rw [he] at hopen
        cases hopen
      · rw [he] at hopen
        obtain ⟨hi, rfl⟩ := Prod.mk.inj hopen
        cases hi
        obtain ⟨-, hprotected, hreads⟩ := openSession_cursor hok.log hforce hcursor hcreated
        refine ⟨created, List.getElem?_concat_length, hprotected, ?_⟩
        split at hreads
        next hgap => rw [if_pos hgap]; exact hreads.1
        next hge => rw [if_neg hge]; exact hreads
    streams := hok.streams
    reads := fun session _ halive pick result after hnext => next_of_alive halive hnext }

/-! Three commits with a retention of two, and a session that resumes after the first. -/

namespace Resumed

/-- A schema whose fingerprints are zeros. -/
def schema : Schema :=
  { id := "orders", fingerprint := String.ofList (List.replicate 64 '0'),
    keyFingerprint := String.ofList (List.replicate 64 '0'), compatibleFingerprints := ⟨[]⟩ }

def initial : Ledger := ⟨{ schema, retention := 2, chunkBudget := 1024, queueBudget := 2 }, [], []⟩

def inputs : List Op :=
  [.seed [upsert [1] [1]] 1, .commit [upsert [2] [2]] 1, .commit [upsert [3] [3]] 2,
   .open ⟨none⟩ { schema, after := "memory/00000000000000000001", forceSnapshot := false },
     .next 0 .initial]

def final : Ledger := machine.final initial inputs

theorem evaluated : newSource schema 2 1024 = .ok initial.source ∧ final.source.retentionFloor = 1 ∧
    final.commits.length = 3 ∧ final.readers.map (·.received.length) = [1] ∧
    final.source.sessions.map (·.pending.length) = [1] := by
  decide +kernel

theorem run : machine.Run (machine.trace initial inputs) final := by
  have hinit : machine.init initial := ⟨⟨schema, 2, 1024, evaluated.1⟩, rfl, rfl⟩
  have hallows : machine.Allows [] initial inputs :=
    ⟨trivial, trivial, trivial, trivial, trivial, trivial⟩
  exact (Machine.Run.init hinit).extend hallows

/-- The session has one of the two deltas and the other pending; the log has both. -/
theorem resumed_faithful : ∃ history l, machine.Run history l ∧ l.commits.length = 3 ∧
    l.readers.map (·.received.length) = [1] ∧ l.source.log.map (·.batch) = l.commits.drop 1 ∧
      Faithful l := by
  obtain ⟨-, hfloor, hcommits, hreceived, -⟩ := evaluated
  have hfaithful := (owner_log_faithful run).1
  have hretained := hfaithful.retained
  exact ⟨_, final, run, hcommits, hreceived, hretained, hfaithful⟩

end Resumed

end Ledger

/-! ## The difference of two row sets -/

namespace Source

section

variable (current desired : Rows)

/-- A row that is as desired is left alone, another one is made so. -/
theorem diffKey_cases (key : List UInt8) :
    (diffKey current desired key = none ∧ current.lookup key = desired.lookup key) ∨
    ∃ mutation, diffKey current desired key = some mutation ∧ mutation.key = key ∧
      current.lookup key ≠ desired.lookup key ∧ ∀ rows other,
        (mutation.apply rows).lookup other = if other =
          key then desired.lookup key else rows.lookup other := by
  unfold diffKey
  cases current.lookup key with
  | none =>
    cases desired.lookup key with
    | none => exact .inl ⟨rfl, rfl⟩
    | some after => exact .inr ⟨_, rfl, rfl, nofun, fun rows other => Map.lookup_insert_eq ..⟩
  | some before =>
    cases desired.lookup key with
    | none => exact .inr ⟨_, rfl, rfl, nofun, fun rows other => Map.lookup_erase_eq ..⟩
    | some after =>
      dsimp only
      split
      next heq => exact .inl ⟨rfl, congrArg some (eq_of_beq heq)⟩
      next hne => exact .inr ⟨_, rfl, rfl, by simpa using hne, fun rows other =>
        Map.lookup_insert_eq ..⟩

theorem lookup_diff (keys : List (List UInt8)) (rows : Rows) (key : List UInt8) :
    (applyMutations rows (keys.filterMap (diffKey current desired))).lookup key =
      if key ∈ keys ∧ current.lookup key ≠ desired.lookup key then desired.lookup key else
        rows.lookup key := by
  induction keys generalizing rows with
  | nil => simp [applyMutations]
  | cons first keys ih =>
    rcases diffKey_cases current desired first with ⟨hnone, hsame⟩ | ⟨mutation, hsome, -,
      hne, hlookup⟩
    · rw [List.filterMap_cons_none hnone, ih]
      by_cases heq : key = first
      · subst heq
        simp [hsame]
      · simp [heq]
    · rw [List.filterMap_cons_some hsome]
      refine (ih (mutation.apply rows)).trans ?_
      rw [hlookup]
      by_cases heq : key = first
      · subst heq
        simp [hne]
      · simp [heq]

theorem mem_keys_of_ne {key : List UInt8} (h : current.lookup key ≠ desired.lookup key) :
    key ∈ (current.keys ∪ desired.keys).sort (· ≤ ·) := by
  rw [Finset.mem_sort, Finset.mem_union, Finmap.mem_keys, Finmap.mem_keys]
  by_contra hnot
  rw [not_or, ← Finmap.lookup_eq_none, ← Finmap.lookup_eq_none] at hnot
  exact h (hnot.1.trans hnot.2.symm)

theorem apply_diffRows : applyMutations current (diffRows current desired) = desired := by
  refine Finmap.ext_lookup fun key => ?_
  rw [diffRows, lookup_diff]
  split
  next => rfl
  next h => exact not_not.mp fun hne => h ⟨mem_keys_of_ne current desired hne, hne⟩

theorem keys_diffRows : (diffRows current desired).map Mutation.key =
    ((current.keys ∪ desired.keys).sort (· ≤ ·)).filter fun key =>
      current.lookup key ≠ desired.lookup key := by
  rw [diffRows, List.map_filterMap, ← List.filterMap_eq_filter]
  refine List.filterMap_congr fun key _ => ?_
  rcases diffKey_cases current desired key with ⟨hnone, hsame⟩ | ⟨mutation, hsome, hkey, hne, -⟩
  · simp [hnone, hsame, Option.guard]
  · simp [hsome, hkey, hne]

end

theorem commitLocked_eq_ok {after : Source} {mutations : List Mutation} {sourceTime : Time}
    {cursor : Cursor} (h : source.commitLocked mutations sourceTime = (.ok cursor, after)) :
    cursor = encodeCursor (source.offset + 1) ∧ after = source.committed mutations sourceTime := by
  unfold commitLocked at h
  split at h
  · cases (Prod.mk.inj h).1
  split at h
  · cases (Prod.mk.inj h).1
  split at h
  · cases (Prod.mk.inj h).1
  · obtain ⟨hcursor, rfl⟩ := Prod.mk.inj h
    exact ⟨(Except.ok.inj hcursor).symm, rfl⟩

/-- **Replace emits the difference.** A source without rows commits what it is given. After that the
rows become those that are desired: nothing happens if they are, and otherwise a delta is committed
that has each changed key once and no other. -/
theorem replace_exact {source after : Source} {rows : List Mutation} {sourceTime : Time}
    {cursor : Cursor} (h : source.replace rows sourceTime = (.ok cursor, after)) :
    (source.offset = 0 → after = source.committed rows sourceTime) ∧
    (source.offset ≠ 0 → after.rows = applyMutations ∅ rows ∧
      (source.rows = applyMutations ∅ rows → after = source ∧ cursor = encodeCursor source.offset) ∧
      (source.rows ≠ applyMutations ∅ rows → ∃ delta, after = source.committed delta sourceTime ∧
        cursor = encodeCursor (source.offset + 1) ∧
        applyMutations source.rows delta = applyMutations ∅ rows ∧
        (delta.map Mutation.key).Nodup ∧ ∀ key, key ∈ delta.map Mutation.key ↔
          source.rows.lookup key ≠ (applyMutations ∅ rows).lookup key)) := by
  unfold replace at h
  split at h
  · cases h
  dsimp only at h
  split at h
  · cases h
  split at h
  next hzero => exact ⟨fun _ => (commitLocked_eq_ok h).2, fun hne => absurd (eq_of_beq hzero) hne⟩
  next hoffset =>
    refine ⟨fun hzero => absurd (beq_iff_eq.mpr hzero) hoffset, fun _ => ?_⟩
    have happly := apply_diffRows source.rows (applyMutations ∅ rows)
    have hkeys := keys_diffRows source.rows (applyMutations ∅ rows)
    generalize diffRows source.rows (applyMutations ∅ rows) = delta at h happly hkeys
    split at h
    next hempty =>
      obtain rfl := List.isEmpty_iff.mp hempty
      obtain ⟨rfl, rfl⟩ : encodeCursor source.offset = cursor ∧ source = after := by simpa using h
      exact ⟨happly, fun _ => ⟨rfl, rfl⟩, fun hne => absurd happly hne⟩
    next hempty =>
      obtain ⟨rfl, rfl⟩ := commitLocked_eq_ok h
      have hmem (key : List UInt8) : key ∈ delta.map Mutation.key ↔
          source.rows.lookup key ≠ (applyMutations ∅ rows).lookup key := by
        rw [hkeys, List.mem_filter, decide_eq_true_eq]
        exact and_iff_right_of_imp (mem_keys_of_ne _ _)
      refine ⟨happly, fun heq => ?_, fun _ => ⟨delta, rfl, rfl, happly, ?_, hmem⟩⟩
      · obtain ⟨mutation, hm⟩ := List.exists_mem_of_ne_nil delta (by simpa using hempty)
        exact absurd (congrArg _ heq) ((hmem mutation.key).mp (List.mem_map_of_mem hm))
      · rw [hkeys]
        exact (Finset.sort_nodup _ _).filter _

/-- A source without rows commits, and moves its cursor, although it has the rows that are
desired. -/
theorem unseeded_replaces : newSource Ledger.Resumed.schema 2 1024 =
    .ok Ledger.Resumed.initial.source ∧
    Ledger.Resumed.initial.source.rows = applyMutations ∅ [delete [1]] ∧
    (Ledger.Resumed.initial.source.replace [delete [1]] 1).1 = .ok (encodeCursor 1) ∧
    (Ledger.Resumed.initial.source.replace [delete [1]] 1).2.offset = 1 := by
  decide +kernel

/-- A source with one row. -/
def seeded : Source := (Ledger.Resumed.initial.source.seed [upsert [1] [1]] 1).2

theorem seeded_replaces : ∃ cursor after, seeded.replace [upsert [1] [2]] 2 = (.ok cursor, after) ∧
    after.rows = applyMutations ∅ [upsert [1] [2]] := by
  have hok : (seeded.replace [upsert [1] [2]] 2).1 = .ok (encodeCursor 2) := by decide +kernel
  exact ⟨_, _, Prod.ext hok rfl, ((replace_exact (Prod.ext hok rfl)).2 (by decide +kernel)).1⟩

end Source

end Keelith.Projection.Owner

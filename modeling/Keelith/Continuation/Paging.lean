import Keelith.Continuation.Attach
import Keelith.Lib.Run

/-!
# Reading a call page by page

A consumer calls `Runtime.Attach` again and again, each time from `NextSequence - 1` of the last
page, while `Apply` commits frames and `PruneFrames` removes old ones.

* `Paging`: the stored call, the log of every frame that was committed, and the consumer.
* `Paging.Ok`: the stored frames are the log from the floor on, and the consumer has the log from
  its start cursor to its cursor.
* `attach_paging`: what the consumer has, and what the next `Attach` gives it.

`PruneFrames` of a store prunes terminal calls only. Here any call can be pruned, at any time.
-/

namespace Keelith.Continuation

/-- The stored call and its consumer. -/
structure Paging where
  snapshot : Snapshot
  /-- Every frame that was committed, also those that were pruned since. -/
  log : List Frame
  /-- The consumer's exclusive cursor. -/
  cursor : UInt64
  /-- The frames of the consumer's pages, in the order in which they arrived. -/
  received : List Frame

/-- A commit, a prune, or one `Attach` of the consumer. -/
inductive PagingInput where
  | apply (transition : Transition)
  | prune (floor : UInt64)
  /-- `failure` is the error of `Store.Load`, if it fails. -/
  | attach (limit : Int) (failure : Option Error)

/-- What the input returns. -/
inductive PagingOutput where
  | snapshot (result : Except Error Snapshot)
  | page (result : Except Error Attachment)

namespace Paging

/-- `Store.Load` of the call. -/
def load (p : Paging) : Option Error → Except Error Snapshot
  | none => .ok p.snapshot
  | some err => .error err

/-- The next `Attach` of the consumer. -/
def nextPage (p : Paging) (limit : Int) (failure : Option Error) : Except Error Attachment :=
  attach (p.load failure) p.snapshot.callID p.cursor limit

/-- The call after a commit; the log gets the frames that the commit added. -/
def commit (p : Paging) (next : Snapshot) : Paging :=
  { p with snapshot := next, log := p.log ++ next.frames.drop p.snapshot.frames.length }

/-- The consumer takes a page and continues from `NextSequence - 1`. -/
def take (p : Paging) (a : Attachment) : Paging :=
  { p with cursor := a.nextSequence - 1, received := p.received ++ a.frames }

/-- One input. -/
def exec (p : Paging) : PagingInput → PagingOutput × Paging
  | .apply transition =>
    match apply p.snapshot transition with
    | .ok next => (.snapshot (.ok next), p.commit next)
    | .error err => (.snapshot (.error err), p)
  | .prune floor =>
    match pruneSnapshot p.snapshot floor with
    | .ok pruned => (.snapshot (.ok pruned), { p with snapshot := pruned })
    | .error err => (.snapshot (.error err), p)
  | .attach limit failure =>
    match p.nextPage limit failure with
    | .ok a => (.page (.ok a), p.take a)
    | .error err => (.page (.error err), p)

/-- A call of which nothing was pruned yet, and a consumer that has read nothing. -/
structure Init (start : UInt64) (p : Paging) : Prop where
  valid : SnapshotOk p.snapshot
  floor : p.snapshot.frameFloor = 1
  log : p.log = p.snapshot.frames
  cursor : p.cursor = start
  received : p.received = []

/-- The limits that `Attach` accepts. -/
def Limit (limit : Int) : Prop := 1 ≤ limit ∧ limit ≤ maxAttachFrames

instance (limit : Int) : Decidable (Limit limit) := inferInstanceAs (Decidable (_ ∧ _))

/-- The consumer's limits are those that `Attach` accepts. -/
def May : PagingInput → Prop
  | .attach limit _ => Limit limit
  | _ => True

instance : ∀ i, Decidable (May i)
  | .attach limit _ => inferInstanceAs (Decidable (Limit limit))
  | .apply _ | .prune _ => inferInstanceAs (Decidable True)

/-- A consumer with the start cursor `start`, in any interleaving with commits and prunes. -/
def machine (start : UInt64) : Machine Paging PagingInput PagingOutput where
  init := Init start
  exec := exec
  may _ _ := May

instance (start : UInt64) (history : List (Event Paging PagingInput PagingOutput)) (p : Paging)
    (i : PagingInput) : Decidable ((machine start).may history p i) :=
  inferInstanceAs (Decidable (May i))

/-! ## The invariant -/

/-- The log is numbered from one, the store has its end, and the consumer has a part of it without a
hole. -/
structure Ok (start : UInt64) (p : Paging) : Prop where
  valid : SnapshotOk p.snapshot
  numbered : validFrames 1 p.log = true
  length : p.log.length = p.snapshot.sequence.toNat
  retained : p.snapshot.frames = p.log.drop (p.snapshot.frameFloor.toNat - 1)
  start_le : start.toNat ≤ p.cursor.toNat
  -- a cursor beyond the log is the one that the consumer started with
  reached : p.cursor.toNat ≤ p.log.length ∨ p.cursor = start
  received : p.received = (p.log.take p.cursor.toNat).drop start.toNat

variable {start : UInt64} {p : Paging}

theorem Init.ok (h : Init start p) : Ok start p := by
  have hw := h.valid.window
  rw [h.floor, UInt64.toNat_one] at hw
  refine ⟨h.valid, ?_, ?_, ?_, ?_, .inr h.cursor, ?_⟩
  · rw [h.log, ← h.floor]
    exact h.valid.frames
  · rw [h.log]
    omega
  · rw [h.log, h.floor]
    rfl
  · rw [h.cursor]
  · rw [h.received, h.cursor, List.drop_take_self]

namespace Ok

section

variable (h : Ok start p)

include h

theorem log_lt : p.log.length < 2 ^ 64 := by
  rw [h.length]
  exact toNat_lt_two_pow _

/-- The floor is at most one above the log. -/
theorem floor_le : p.snapshot.frameFloor.toNat ≤ p.log.length + 1 := by
  have hw := h.valid.window
  rw [h.length]
  omega

/-- The log goes on, and what was received of it stays. -/
theorem received_append (new : List Frame) :
    p.received = ((p.log ++ new).take p.cursor.toNat).drop start.toNat := by
  rcases h.reached with hle | rfl
  · rw [h.received, List.take_append_of_le_length hle]
  · rw [h.received, List.drop_take_self, List.drop_take_self]

theorem commit {transition : Transition} {next : Snapshot}
    (ha : apply p.snapshot transition = .ok next) : Ok start (p.commit next) := by
  have hvalid := apply_valid ha
  obtain ⟨-, -, ⟨-, rfl⟩ | ⟨-, hadv, rfl⟩⟩ := apply_ok_iff.mp ha
  · -- the repeated command changes nothing
    have hsame : p.commit p.snapshot = p := by
      simp [Paging.commit]
    rw [hsame]
    exact h
  have hnew : (advanced p.snapshot transition).frames.drop p.snapshot.frames.length =
      Continuation.numbered (p.snapshot.sequence + 1) transition.frames :=
    List.drop_left
  have hlast : 1 + UInt64.ofNat p.log.length = p.snapshot.sequence + 1 := by
    rw [h.length, UInt64.ofNat_toNat, UInt64.add_comm]
  refine ⟨hvalid, ?_, ?_, ?_, h.start_le, ?_, h.received_append _⟩
  · simp only [Paging.commit, hnew, validFrames_append, h.numbered, hlast]
    exact validFrames_numbered hadv.frames
  · simp only [Paging.commit, hnew, List.length_append, length_numbered, h.length]
    exact hadv.toNat_sequence.symm
  · simp only [Paging.commit, hnew]
    have hfloor := h.floor_le
    show p.snapshot.frames ++ _ = _
    rw [h.retained, List.drop_append_of_le_length
      (by show p.snapshot.frameFloor.toNat - 1 ≤ _; omega)]
    rfl
  · refine h.reached.imp_left fun hle => ?_
    simp only [Paging.commit, List.length_append]
    omega

theorem prune {floor : UInt64} {pruned : Snapshot}
    (hp : pruneSnapshot p.snapshot floor = .ok pruned) :
    Ok start { p with snapshot := pruned } := by
  obtain ⟨-, hvalid, floor', n, rfl⟩ := pruneSnapshot_ok hp
  refine { h with valid := hvalid, retained := ?_ }
  -- both windows end with the same sequence, so the number of frames removed is the move of the
  -- floor
  have hw := h.valid.window
  have hw' := hvalid.window
  have hpos := h.valid.floor
  have hpos' := hvalid.floor
  simp only [List.length_drop] at hw' hpos'
  show p.snapshot.frames.drop n = p.log.drop (floor'.toNat - 1)
  by_cases hn : n ≤ p.snapshot.frames.length
  · rw [h.retained, List.drop_drop]
    congr 1
    omega
  · rw [List.drop_eq_nil_of_le (by omega), List.drop_eq_nil_of_le (by rw [h.length]; omega)]

/-- The stored frames after a cursor that is not below the floor are those of the log. -/
theorem framesAfter_eq (hfloor : p.snapshot.frameFloor.toNat ≤ p.cursor.toNat + 1) :
    framesAfter p.snapshot p.cursor.toNat = p.log.drop p.cursor.toNat := by
  have hpos := h.valid.floor
  rw [framesAfter_eq_drop h.valid, h.retained, List.drop_drop]
  congr 1
  omega

variable {limit : Int} {a : Attachment}

theorem page (ha : attach (.ok p.snapshot) p.snapshot.callID p.cursor limit = .ok a) :
    a.frames = (p.log.drop p.cursor.toNat).take limit.toNat ∧
      (a.nextSequence - 1).toNat = min (p.cursor.toNat + limit.toNat) p.log.length ∧
      p.cursor.toNat ≤ p.log.length := by
  obtain ⟨_, hs, hpage⟩ := attach_ok ha
  obtain rfl := Except.ok.inj hs
  refine ⟨?_, ?_, ?_⟩
  · rw [hpage.frames, h.framesAfter_eq hpage.floor]
  · rw [hpage.toNat_next, h.length]
  · rw [h.length]
    exact UInt64.le_iff_toNat_le.mp hpage.cursor

theorem take (ha : attach (.ok p.snapshot) p.snapshot.callID p.cursor limit = .ok a) :
    Ok start (p.take a) := by
  obtain ⟨hframes, hnext, hle⟩ := h.page ha
  have hstart := h.start_le
  refine ⟨h.valid, h.numbered, h.length, h.retained, ?_, .inl ?_, ?_⟩
  · show start.toNat ≤ (a.nextSequence - 1).toNat
    omega
  · show (a.nextSequence - 1).toNat ≤ p.log.length
    omega
  · show p.received ++ a.frames = (p.log.take (a.nextSequence - 1).toNat).drop start.toNat
    have hmin : p.log.take (a.nextSequence - 1).toNat =
        p.log.take (p.cursor.toNat + limit.toNat) := by
      rw [hnext, ← List.take_eq_take_min]
    rw [hmin, List.take_add, List.drop_append_of_le_length
      (by rw [List.length_take]; omega), ← h.received, hframes]

/-- Every input keeps the invariant. -/
theorem exec (i : PagingInput) : Ok start (p.exec i).2 := by
  cases i with
  | apply transition =>
    cases ha : apply p.snapshot transition with
    | error err => simpa only [Paging.exec, ha] using h
    | ok next => simpa only [Paging.exec, ha] using h.commit ha
  | prune floor =>
    cases hp : pruneSnapshot p.snapshot floor with
    | error err => simpa only [Paging.exec, hp] using h
    | ok pruned => simpa only [Paging.exec, hp] using h.prune hp
  | attach limit failure =>
    cases ha : p.nextPage limit failure with
    | error err => simpa only [Paging.exec, ha] using h
    | ok a =>
      cases failure with
      | none => simpa only [Paging.exec, ha] using h.take ha
      | some err =>
        obtain ⟨_, hs, -⟩ := attach_ok ha
        cases hs

end

end Ok

theorem Ok.run {history : List (Event Paging PagingInput PagingOutput)}
    (h : (machine start).Run history p) : Ok start p :=
  h.invariant (I := fun _ p => Ok start p) (fun _ hi => Init.ok hi) fun _ _ i hok _ => hok.exec i

/-! ## What the consumer reads -/

/-- The committed frames above one cursor up to another. -/
def between (p : Paging) (lower upper : Nat) : List Frame :=
  p.log.filter fun frame => decide (lower < frame.sequence.toNat) &&
    decide (frame.sequence.toNat ≤ upper)

/-- The next frame of the consumer was committed and is no longer stored. -/
def NextPruned (p : Paging) : Prop :=
  ∃ frame ∈ p.log, frame.sequence.toNat = p.cursor.toNat + 1 ∧ frame ∉ p.snapshot.frames

namespace Ok

section

variable (h : Ok start p)

include h

theorem sequences : p.log.map (fun frame => frame.sequence.toNat) = List.range' 1 p.log.length := by
  have hlt := h.log_lt
  exact sequences_eq_range h.numbered (by rw [UInt64.toNat_one]; omega)

theorem numbered_take (n : Nat) : validFrames 1 (p.log.take n) = true := by
  have hnumbered := h.numbered
  rw [← List.take_append_drop n p.log, validFrames_append, Bool.and_eq_true] at hnumbered
  exact hnumbered.1

theorem take_eq_filter (upper : Nat) :
    p.log.filter (fun frame => decide (frame.sequence.toNat ≤ upper)) = p.log.take upper := by
  have hlt := h.log_lt
  have hdrop := filter_after_eq_drop upper h.numbered (by rw [UInt64.toNat_one]; omega)
  rw [UInt64.toNat_one, Nat.add_sub_cancel] at hdrop
  have htake : ∀ frame ∈ p.log.take upper, frame.sequence.toNat ≤ upper := by
    intro frame hm
    have hmem := List.mem_map_of_mem (f := fun frame => frame.sequence.toNat) hm
    rw [sequences_eq_range (h.numbered_take upper)
      (by rw [UInt64.toNat_one, List.length_take]; omega),
      UInt64.toNat_one, List.length_take, List.mem_range'_1] at hmem
    omega
  have hrest : ∀ frame ∈ p.log.drop upper, ¬ frame.sequence.toNat ≤ upper := by
    intro frame hm
    rw [← hdrop, List.mem_filter, decide_eq_true_eq] at hm
    omega
  conv_lhs => rw [← List.take_append_drop upper p.log]
  rw [List.filter_append, List.filter_eq_self.mpr (by simpa using htake),
    List.filter_eq_nil_iff.mpr (by simpa using hrest), List.append_nil]

theorem between_eq (lower upper : Nat) : p.between lower upper = (p.log.take upper).drop lower := by
  have hlt := h.log_lt
  have hdrop := filter_after_eq_drop lower (h.numbered_take upper)
    (by rw [UInt64.toNat_one, List.length_take]; omega)
  rw [UInt64.toNat_one, Nat.add_sub_cancel] at hdrop
  rw [← hdrop, ← h.take_eq_filter, List.filter_filter]
  rfl

theorem nextPruned_iff : p.NextPruned ↔ p.cursor.toNat + 1 < p.snapshot.frameFloor.toNat := by
  have hfloor := h.floor_le
  constructor
  · rintro ⟨frame, hm, hseq, hgone⟩
    by_contra hle
    refine hgone ?_
    -- a frame from the floor on is stored
    rw [h.retained]
    have hlt := h.log_lt
    have hdrop := filter_after_eq_drop (p.snapshot.frameFloor.toNat - 1) h.numbered
      (by rw [UInt64.toNat_one]; omega)
    rw [UInt64.toNat_one, Nat.add_sub_cancel] at hdrop
    rw [← hdrop, List.mem_filter, decide_eq_true_eq]
    exact ⟨hm, by omega⟩
  · intro hlt
    have hmem : p.cursor.toNat + 1 ∈ p.log.map fun frame => frame.sequence.toNat := by
      rw [h.sequences, List.mem_range'_1]
      omega
    obtain ⟨frame, hm, hseq⟩ := List.mem_map.mp hmem
    refine ⟨frame, hm, hseq, fun hin => ?_⟩
    have := UInt64.le_iff_toNat_le.mp (h.valid.floor_le hin)
    omega

variable {limit : Int}

/-- `Attach` of the stored call, check by check. -/
theorem nextPage_eq (hl : Limit limit) : (p.snapshot.sequence < p.cursor ∧
      p.nextPage limit none = .error (.cursor p.cursor p.snapshot.sequence)) ∨
    (p.NextPruned ∧ p.nextPage limit none = .error (.gap p.cursor p.snapshot.frameFloor)) ∨
    (¬ p.snapshot.sequence < p.cursor ∧ ¬ p.NextPruned ∧ ∃ a, p.nextPage limit none = .ok a) := by
  rcases attach_cases h.valid h.valid.callID p.cursor limit hl with ⟨hc, he⟩ | ⟨hg,
    he⟩ | ⟨hc, hg, ha⟩
  · exact .inl ⟨hc, he⟩
  · exact .inr (.inl ⟨h.nextPruned_iff.mpr hg, he⟩)
  · exact .inr (.inr ⟨UInt64.not_lt.mpr hc, mt h.nextPruned_iff.mp (Nat.not_lt.mpr hg), ha⟩)

/-- A page has the frames after the cursor, up to its limit or the end of the log. -/
theorem nextPage_ok {a : Attachment} (ha : p.nextPage limit none = .ok a) :
    (a.nextSequence - 1).toNat = min (p.cursor.toNat + limit.toNat) p.log.length ∧
      a.frames = p.between p.cursor.toNat (a.nextSequence - 1).toNat := by
  obtain ⟨hframes, hnext, -⟩ := h.page ha
  refine ⟨hnext, ?_⟩
  rw [h.between_eq, hnext, ← List.take_eq_take_min, hframes, List.drop_take]
  congr 1
  omega

/-- The cursor is not both beyond the log and below the floor. -/
theorem not_pruned_of_beyond (hc : p.snapshot.sequence < p.cursor) : ¬ p.NextPruned := by
  have hc := UInt64.lt_iff_toNat_lt.mp hc
  have hfloor := h.floor_le
  rw [h.nextPruned_iff]
  rw [h.length] at hfloor
  omega

end

end Ok

/-- **Nothing is lost or repeated.** In every interleaving of commits, prunes and pages, the
consumer has, in order and once each, the committed frames above its start cursor up to its cursor.
Its next `Attach` fails with a gap exactly if the next frame was pruned, with a cursor error exactly
if the cursor is beyond the stored sequence, and otherwise moves the cursor by the limit or to the
end of the log, with the frames in between. -/
theorem attach_paging {start : UInt64} {history : List (Event Paging PagingInput PagingOutput)}
    {p : Paging} (h : (machine start).Run history p) :
    p.log.map (fun frame => frame.sequence.toNat) = List.range' 1 p.log.length ∧
    p.received = p.between start.toNat p.cursor.toNat ∧
    ∀ limit, Limit limit →
      ((∃ after floor, p.nextPage limit none = .error (.gap after floor)) ↔ p.NextPruned) ∧
      ((∃ after sequence, p.nextPage limit none = .error (.cursor after sequence)) ↔
        p.snapshot.sequence < p.cursor) ∧
      (¬ p.NextPruned ∧ ¬ p.snapshot.sequence < p.cursor →
        ∃ a, p.nextPage limit none = .ok a ∧
          (a.nextSequence - 1).toNat = min (p.cursor.toNat + limit.toNat) p.log.length ∧
          a.frames = p.between p.cursor.toNat (a.nextSequence - 1).toNat) := by
  have hok := Ok.run h
  refine ⟨hok.sequences, by rw [hok.between_eq, hok.received], fun limit hl => ?_⟩
  rcases hok.nextPage_eq hl with ⟨hc, he⟩ | ⟨hg, he⟩ | ⟨hc, hg, a, he⟩
  · have hg := hok.not_pruned_of_beyond hc
    simp [he, hc, hg]
  · have hc : ¬ p.snapshot.sequence < p.cursor := fun hc => hok.not_pruned_of_beyond hc hg
    simp [he, hc, hg]
  · refine ⟨by simp [he, hg], by simp [he, hc], fun _ => ⟨a, he, hok.nextPage_ok he⟩⟩

/-! A call with three frames: the consumer reads two of them, then all are pruned. -/

namespace PrunedTooEarly

/-- The call after `NewSnapshotWithInput`. -/
def call : Snapshot :=
  { callID := "call", operation := "/svc/job", status := .accepted, readyAt := Time.zero
    revision := 1, fence := 0, sequence := 1, frameFloor := 1, frames := [⟨1, .accepted, [7]⟩]
    commands := ∅, workflow := none }

def initial : Paging := ⟨call, call.frames, 0, []⟩

def inputs : List PagingInput :=
  [.apply { status := .running, fence := 1, frames := [⟨0, .event, [8]⟩, ⟨0, .event, [9]⟩] },
    .attach 2 none, .prune 4]

/-- The state after the inputs. -/
def final : Paging := (machine 0).final initial inputs

theorem evaluated : newSnapshotWithInput "call" "/svc/job" [7] = .ok call ∧
    final.received = [⟨1, .accepted, [7]⟩, ⟨2, .event, [8]⟩] ∧ final.log.length = 3 ∧
      final.cursor = 2 ∧ final.snapshot.frameFloor = 4 := by
  decide +kernel

theorem run : (machine 0).Run ((machine 0).trace initial inputs) final := by
  have hinit : (machine 0).init initial :=
    ⟨newSnapshotWithInput_valid evaluated.1, rfl, rfl, rfl, rfl⟩
  have hallows : (machine 0).Allows [] initial inputs := by decide
  exact (Machine.Run.init hinit).extend hallows

/-- The consumer has the first two of three frames, and its next `Attach` reports the gap. -/
theorem gap_reported : ∃ history p, (machine 0).Run history p ∧ p.log.length = 3 ∧
    p.received = p.between 0 2 ∧ p.NextPruned ∧ ∃ after floor,
      p.nextPage 2 none = .error (.gap after floor) := by
  obtain ⟨-, -, hlength, hcursor, hfloor⟩ := evaluated
  obtain ⟨-, hreceived, hnext⟩ := attach_paging run
  have hpruned : final.NextPruned := by
    rw [(Ok.run run).nextPruned_iff]
    decide
  exact ⟨_, final, run, hlength, hreceived, hpruned, (hnext 2 (by decide)).1.mpr hpruned⟩

end PrunedTooEarly

end Paging

end Keelith.Continuation

import Keelith.Continuation.Attach

/-!
# What a commit and a prune keep

`Apply` (`programmable/continuation/state.go`) only extends a snapshot; `PruneSnapshot`
(`programmable/continuation/retention.go`) only raises its frame floor.

* `Advances.sequences`: the frames that a transition adds go on from the last sequence.
* `prunedTo`: the snapshot with the frames from a floor on; `pruneSnapshot_eq`: it is what
  `PruneSnapshot` returns. The prunes of one call form the semilattice of their floors.
-/

namespace Keelith.Continuation

variable {s current next : Snapshot} {transition : Transition} {a b : UInt64}

/-! ## Commits -/

theorem Advances.sequences (h : Advances current transition) :
    (numbered (current.sequence + 1) transition.frames).map (fun frame => frame.sequence.toNat) =
      List.range' (current.sequence.toNat + 1) transition.frames.length := by
  have hvalid : validFrames (current.sequence + 1)
    (numbered (current.sequence + 1) transition.frames) = true :=
    validFrames_numbered h.frames
  have hlast := h.sequence
  cases hframes : transition.frames with
  | nil => rfl
  | cons frame rest =>
    -- a frame is added, so the sequence is not the last counter
    rw [hframes, List.length_cons] at hlast
    have hsucc := toNat_succ (ne_maxUint64_iff.mpr (show current.sequence.toNat +
      1 < 2 ^ 64 by omega))
    rw [hframes] at hvalid
    rw [sequences_eq_range hvalid (by simp; omega), hsucc, length_numbered]

/-- A transition that advances keeps the recorded commands. -/
theorem lookup_advanced (h : NewCommand current transition) {id : String} {record : CommandRecord}
    (hl : current.commands.lookup id = some record) :
    (advanced current transition).commands.lookup id = some record := by
  rw [advanced_commands_other, hl]
  rintro ⟨hcommand, rfl⟩
  rw [(h.resolve_left hcommand).2] at hl
  cases hl

/-- **A commit keeps a snapshot valid and only extends it.** `apply` returns the snapshot for a
replayed command; else the next revision, with no smaller fence, more frames and more commands. -/
theorem apply_preserves (h : apply current transition = .ok next) :
    validateSnapshot next = .ok () ∧
    (Replays current transition ∧ next = current ∨
      next.revision.toNat = current.revision.toNat + 1) ∧
    current.fence ≤ next.fence ∧
    (∃ new, next.frames = current.frames ++ new ∧
      new.map (fun frame => frame.sequence.toNat) =
        List.range' (current.sequence.toNat + 1) new.length ∧
      next.sequence.toNat = current.sequence.toNat + new.length) ∧
    (∀ id record, current.commands.lookup id = some record →
      next.commands.lookup id = some record) ∧
    (current.status.terminal = true → next = current) := by
  refine ⟨validateSnapshot_ok_iff.mpr (apply_valid h), ?_⟩
  obtain ⟨-, -, ⟨hreplay, rfl⟩ | ⟨hnew, hadvance, rfl⟩⟩ := apply_ok_iff.mp h
  · exact ⟨.inl ⟨hreplay, rfl⟩, UInt64.le_refl _, ⟨[], by simp⟩, fun _ _ hl => hl, fun _ => rfl⟩
  · refine ⟨.inr (toNat_succ hadvance.revision), hadvance.fence, ⟨_, rfl, ?_⟩,
      fun _ _ => lookup_advanced hnew, fun ht => ?_⟩
    · rw [hadvance.sequences, hadvance.toNat_sequence, length_numbered]
      exact ⟨rfl, rfl⟩
    · simp [hadvance.live] at ht

/-- A call that waits for its second signal. -/
def signaled : Snapshot where
  callID := "c"
  operation := "/s/m"
  status := .waiting
  readyAt := Time.zero
  revision := 6
  fence := 2
  sequence := 2
  frameFloor := 1
  frames := [⟨1, .accepted, []⟩, ⟨2, .signal, [7]⟩]
  commands := (∅ : Map String CommandRecord).insert "first" ⟨.signal, [1]⟩
  workflow := none

/-- The second signal. -/
def secondSignal : Transition :=
  { status := .accepted, frames := [⟨0, .signal, [8]⟩], commandID := "second", command := .signal }

/-- It adds a frame and a command, and keeps the first ones. -/
theorem apply_preserves_signal : ∃ next, apply signaled secondSignal = .ok next ∧
    validateSnapshot next = .ok () ∧ next.frames = signaled.frames ++ [⟨3, .signal, [8]⟩] ∧
    next.commands.lookup "first" = some ⟨.signal, [1]⟩ := by
  have happly : apply signaled secondSignal = .ok (advanced signaled secondSignal) := rfl
  obtain ⟨hvalid, -, -, -, hcommands, -⟩ := apply_preserves happly
  exact ⟨_, happly, hvalid, rfl, hcommands _ _ rfl⟩

/-! ## Prunes -/

/-- The snapshot with the frames from `floor` on. -/
def prunedTo (s : Snapshot) (floor : UInt64) : Snapshot :=
  { s with
    frameFloor := max s.frameFloor floor
    frames := s.frames.filter fun frame => max s.frameFloor floor ≤ frame.sequence }

theorem prunedTo_self (h : SnapshotOk s) (ha : a ≤ s.frameFloor) : prunedTo s a = s := by
  have hmax : max s.frameFloor a = s.frameFloor := by
    rw [UInt64.le_iff_toNat_le] at ha
    apply UInt64.toNat_inj.mp
    rw [UInt64.toNat_max]
    omega
  have hall : s.frames.filter (fun frame => s.frameFloor ≤ frame.sequence) = s.frames :=
    List.filter_eq_self.mpr fun frame hf => by simpa using h.floor_le hf
  simp only [prunedTo, hmax, hall]

theorem prunedTo_prunedTo : prunedTo (prunedTo s a) b = prunedTo s (max a b) := by
  have hmax : max (max s.frameFloor a) b = max s.frameFloor (max a b) := by
    apply UInt64.toNat_inj.mp
    simp only [UInt64.toNat_max]
    omega
  simp only [prunedTo, hmax, List.filter_filter, Snapshot.mk.injEq, true_and, and_true]
  refine List.filter_congr fun frame _ => ?_
  simp only [← Bool.decide_and, UInt64.le_iff_toNat_le, UInt64.toNat_max]
  exact decide_eq_decide.mpr (by omega)

/-- Above the floor the kept frames are those after the sequence before `a`. -/
theorem prunedTo_frames (ha : s.frameFloor.toNat < a.toNat) :
    (prunedTo s a).frameFloor = a ∧ (prunedTo s a).frames = framesAfter s (a.toNat - 1) := by
  have hmax : max s.frameFloor a = a := by
    apply UInt64.toNat_inj.mp
    rw [UInt64.toNat_max]
    omega
  refine ⟨hmax, List.filter_congr fun frame _ => decide_eq_decide.mpr ?_⟩
  rw [hmax, UInt64.le_iff_toNat_le]
  omega

theorem prunedTo_valid (h : SnapshotOk s) (hrevision : s.revision ≠ 1)
    (ha : s.frameFloor.toNat < a.toNat) (hle : a.toNat ≤ s.sequence.toNat + 1) :
    SnapshotOk (prunedTo s a) := by
  obtain ⟨hfloor, hframes⟩ := prunedTo_frames ha
  have hone : (1 : UInt64) ≤ a := UInt64.le_iff_toNat_le.mpr (by simp; omega)
  have hpred : (a - 1).toNat = a.toNat - 1 := by
    rw [UInt64.toNat_sub_of_le _ _ hone, UInt64.toNat_one]
  have hkept : validFrames (a - 1 + 1) (framesAfter s (a - 1).toNat) = true :=
    validFrames_framesAfter h (by omega) (UInt64.le_iff_toNat_le.mpr (by omega))
  rw [hpred, UInt64.sub_add_cancel] at hkept
  refine { h with
    floor := ?_, window := ?_, initial := fun h1 => absurd h1 hrevision, frames := ?_ }
  · rw [hfloor]
    omega
  · rw [hframes, hfloor, length_framesAfter h (by omega)]
    show _ = s.sequence.toNat + 1
    omega
  · rw [hframes, hfloor, hkept]

theorem pruneSnapshot_eq (h : SnapshotOk s) (hrevision : s.revision ≠ 1)
    (hsequence : s.sequence ≠ maxUint64)
    (hone : 1 ≤ a.toNat) (hle : a.toNat ≤ s.sequence.toNat + 1) :
    pruneSnapshot s a = .ok (prunedTo s a) := by
  have hvalid := isOk_iff.mpr (validateSnapshot_ok_iff.mpr h)
  have hzero : (a == 0) = false := by simpa using ne_zero_of_pos hone
  have hmax : (s.sequence == maxUint64) = false := by simpa using hsequence
  have hrange : ¬ a > s.sequence + 1 := by
    rw [gt_iff_lt, UInt64.lt_iff_toNat_lt, toNat_succ hsequence]
    omega
  unfold pruneSnapshot
  simp only [hvalid, hzero, hmax, hrange, Bool.not_true, Bool.false_and, Bool.or_self, decide_false,
    Bool.and_false, Bool.false_eq_true, if_false]
  by_cases ha : a ≤ s.frameFloor
  · rw [if_pos ha, prunedTo_self h ha]
  · have hlt : s.frameFloor.toNat < a.toNat := by
      rw [UInt64.le_iff_toNat_le] at ha
      omega
    have hoffset : (a - s.frameFloor).toNat = a.toNat - s.frameFloor.toNat :=
      UInt64.toNat_sub_of_le _ _ (UInt64.le_iff_toNat_le.mpr (by omega))
    have hwindow := h.window
    have hdrop : { s with frameFloor := a, frames := s.frames.drop (a - s.frameFloor).toNat } =
        prunedTo s a := by
      obtain ⟨hfloor, hframes⟩ := prunedTo_frames hlt
      rw [framesAfter_eq_drop h, show a.toNat - 1 + 1 = a.toNat by omega, ← hoffset] at hframes
      exact congrArg₂ (fun frameFloor frames => { s with frameFloor, frames })
        hfloor.symm hframes.symm
    have hpruned := isOk_iff.mpr (validateSnapshot_ok_iff.mpr (prunedTo_valid h hrevision hlt hle))
    rw [if_neg ha, if_neg (by omega), hdrop]
    simp [hpruned]

/-- **A prune is a monotone action.** It succeeds for every floor up to one past the sequence, keeps
all of the snapshot but the floor and the frames below it, and two prunes are the prune to the
larger floor. -/
theorem pruneSnapshot_monotone (h : validateSnapshot s = .ok ()) (hrevision : 2 ≤ s.revision)
    (hsequence : s.sequence < maxUint64) (ha : 1 ≤ a ∧ a ≤ s.sequence + 1)
    (hb : 1 ≤ b ∧ b ≤ s.sequence + 1) :
    pruneSnapshot s a = .ok { s with
      frameFloor := max s.frameFloor a
      frames := s.frames.filter fun frame => max s.frameFloor a ≤ frame.sequence } ∧
    (pruneSnapshot s a >>= fun pruned => pruneSnapshot pruned b) = pruneSnapshot s (max a b) ∧
    ∃ pruned, pruneSnapshot s (max a b) = .ok pruned := by
  have hok := validateSnapshot_ok_iff.mp h
  have hrev : s.revision ≠ 1 := by
    intro h1
    rw [h1] at hrevision
    exact absurd hrevision (by decide)
  have hseq : s.sequence ≠ maxUint64 := UInt64.ne_of_lt hsequence
  simp only [UInt64.le_iff_toNat_le, toNat_succ hseq, UInt64.toNat_one] at ha hb
  have hmax := UInt64.toNat_max a b
  have hfirst := pruneSnapshot_eq hok hrev hseq ha.1 ha.2
  have honce := pruneSnapshot_eq (a := max a b) hok hrev hseq (by omega) (by omega)
  refine ⟨hfirst, ?_, _, honce⟩
  rw [hfirst, honce, ← prunedTo_prunedTo]
  exact pruneSnapshot_eq (pruneSnapshot_ok hfirst).2.1 hrev hseq hb.1 hb.2

/-- Two frames; the prune to 2 and then to 3 is the prune to 3, with no frame left. -/
theorem pruneSnapshot_monotone_all :
    let s : Snapshot := ⟨"c", "/s/m", .running, Time.zero, 2, 1, 2, 1,
      [⟨1, .accepted, []⟩, ⟨2, .event, []⟩], ∅, none⟩
    (pruneSnapshot s 2 >>= fun pruned => pruneSnapshot pruned 3) = pruneSnapshot s 3 :=
  (pruneSnapshot_monotone (by rfl) (by decide) (by decide) (by decide) (by decide)).2.1

end Keelith.Continuation

import Keelith.Continuation.StateLemmas

/-!
# Pages of a call's frames

`programmable/continuation/attach.go`: `Runtime.Attach` reads one bounded page of the frames after a
cursor. The observer calls of the source have no effect on the result and are left out.

* `framesAfter`: the retained frames of a snapshot with a sequence above the cursor.
* `attach_ok`: the page is the first `limit` of them.
* `History`: a call under `Apply` commits, with what never changes along it.
-/

namespace Keelith.Continuation

def maxAttachFrames : Int := 1000

/-- `Attachment`: one bounded view of a call. -/
structure Attachment where
  snapshot : Snapshot
  frames : List Frame
  terminal : Bool
  nextSequence : UInt64
  frameFloor : UInt64

/-- The first sequence that a page does not return. -/
def nextSequenceOf (after : UInt64) (frames : List Frame) : UInt64 :=
  match frames.getLast? with
  | some frame => frame.sequence + 1
  | none => after + 1

/-- `Runtime.Attach`, on the result of `Store.Load`. -/
def attach (loaded : Except Error Snapshot) (callID : CallID) (after : UInt64) (limit : Int) :
    Except Error Attachment :=
  if !validIdentity callID || limit < 1 || limit > maxAttachFrames then
    .error (.sentinel .errInvalidAttach)
  else match loaded with
    | .error err => .error err
    | .ok current =>
      if !(validateSnapshot current).isOk then .error (.sentinel .errInvalidAttach)
      else if after > current.sequence then .error (.cursor after current.sequence)
      else if after < current.frameFloor - 1 then .error (.gap after current.frameFloor)
      else
        let start := (after - (current.frameFloor - 1)).toNat
        let frames := (current.frames.drop start).take limit.toNat
        .ok { snapshot := current, frames, terminal := current.status.terminal,
              nextSequence := nextSequenceOf after frames, frameFloor := current.frameFloor }

/-! ## Frames after a cursor -/

/-- The frames of the snapshot after the cursor. -/
def framesAfter (snapshot : Snapshot) (after : Nat) : List Frame :=
  snapshot.frames.filter fun frame => after < frame.sequence.toNat

variable {expected : UInt64} {frames : List Frame} {snapshot : Snapshot} {frame : Frame}
  {after : UInt64}

/-- Valid frames are numbered without a gap. -/
theorem sequences_eq_range (h : validFrames expected frames = true)
    (hlt : expected.toNat + frames.length ≤ 2 ^ 64) :
    frames.map (fun frame => frame.sequence.toNat) = List.range' expected.toNat frames.length := by
  induction frames generalizing expected with
  | nil => rfl
  | cons frame frames ih =>
    simp only [validFrames, Bool.and_eq_true, beq_iff_eq] at h
    obtain ⟨⟨⟨⟨hs, -⟩, -⟩, -⟩, hrest⟩ := h
    rw [List.length_cons] at hlt
    rw [List.map_cons, List.length_cons, List.range'_succ, hs]
    cases frames with
    | nil => rfl
    | cons next rest =>
      rw [List.length_cons] at hlt
      have hsucc := toNat_succ (ne_maxUint64_iff.mpr (show expected.toNat + 1 < 2 ^ 64 by omega))
      rw [ih hrest (by rw [List.length_cons]; omega), hsucc]

/-- Consecutive frames after a cursor are those from one index on. -/
theorem filter_after_eq_drop (after : Nat)
    (h : validFrames expected frames = true) (hlt : expected.toNat + frames.length ≤ 2 ^ 64) :
    frames.filter (fun frame => after < frame.sequence.toNat) =
      frames.drop (after + 1 - expected.toNat) := by
  have hsequences := sequences_eq_range h hlt
  clear h hlt
  generalize expected.toNat = n at hsequences ⊢
  induction frames generalizing n with
  | nil => simp
  | cons frame frames ih =>
    rw [List.map_cons, List.length_cons, List.range'_succ, List.cons.injEq] at hsequences
    have hrest := ih (n + 1) hsequences.2
    by_cases ha : after < frame.sequence.toNat
    · have h0 : after + 1 - n = 0 := by omega
      have h1 : after + 1 - (n + 1) = 0 := by omega
      simp [ha, h0, h1, hrest]
    · obtain ⟨k, hk⟩ : ∃ k, after + 1 - n = k + 1 := ⟨after - n, by omega⟩
      have h1 : after + 1 - (n + 1) = k := by omega
      simp [ha, hk, h1, hrest]

theorem validFrames_mem (h : validFrames expected frames = true)
    (hf : frame ∈ frames) : frame.kind.valid = true ∧ frame.payload.length ≤ maxPayloadBytes := by
  induction frames generalizing expected with
  | nil => cases hf
  | cons head frames ih =>
    simp only [validFrames, Bool.and_eq_true, decide_eq_true_eq] at h
    rcases List.mem_cons.mp hf with rfl | hf
    · exact ⟨h.1.1.1.2, h.1.2⟩
    · exact ih h.2 hf

/-- The next sequence after consecutive frames. -/
theorem nextSequenceOf_eq (h : validFrames (after + 1) frames = true) :
    nextSequenceOf after frames = after + 1 + UInt64.ofNat frames.length := by
  rcases List.eq_nil_or_concat frames with rfl | ⟨init, last, rfl⟩
  · simp [nextSequenceOf]
  · rw [List.concat_eq_append] at h ⊢
    rw [validFrames_append, Bool.and_eq_true] at h
    have hs : last.sequence = after + 1 + UInt64.ofNat init.length := by
      have := h.2
      simp only [validFrames, Bool.and_eq_true, beq_iff_eq] at this
      exact this.1.1.1.1
    rw [nextSequenceOf, List.getLast?_concat]
    simp only [hs, List.length_append, UInt64.ofNat_add]
    rw [UInt64.add_assoc]
    rfl

section

variable (h : SnapshotOk snapshot)

include h

theorem framesAfter_eq_drop (after : Nat) : framesAfter snapshot after =
      snapshot.frames.drop (after + 1 - snapshot.frameFloor.toNat) := by
  have hw := h.window
  have := toNat_lt_two_pow snapshot.sequence
  exact filter_after_eq_drop after h.frames (by omega)

theorem SnapshotOk.sequences : snapshot.frames.map (fun frame => frame.sequence.toNat) =
      List.range' snapshot.frameFloor.toNat snapshot.frames.length := by
  have hw := h.window
  have := toNat_lt_two_pow snapshot.sequence
  exact sequences_eq_range h.frames (by omega)

/-- A retained frame occurs once. -/
theorem SnapshotOk.nodup : snapshot.frames.Nodup :=
  List.Nodup.of_map _ (h.sequences ▸ List.nodup_range')

theorem SnapshotOk.floor_le (hm : frame ∈ snapshot.frames) :
    snapshot.frameFloor ≤ frame.sequence := by
  have hmem := List.mem_map_of_mem (f := fun frame => frame.sequence.toNat) hm
  rw [h.sequences, List.mem_range'_1] at hmem
  exact UInt64.le_iff_toNat_le.mpr hmem.1

/-- The sequence of a retained frame. -/
theorem SnapshotOk.sequence_le
    (hf : frame ∈ snapshot.frames) : 1 ≤ frame.sequence.toNat ∧
    frame.sequence.toNat ≤ snapshot.sequence.toNat := by
  have hmem := List.mem_map_of_mem (f := fun frame => frame.sequence.toNat) hf
  rw [h.sequences, List.mem_range'_1] at hmem
  have hwindow := h.window
  have hfloor := h.floor
  omega

/-- The last retained frame has the sequence of the call. -/
theorem SnapshotOk.last_sequence {last : Frame}
    (hlast : snapshot.frames.getLast? = some last) : last.sequence = snapshot.sequence := by
  have hsequences := congrArg List.getLast? h.sequences
  have hwindow := h.window
  have hne : snapshot.frames.length ≠ 0 := by
    intro h0
    rw [List.length_eq_zero_iff.mp h0] at hlast
    cases hlast
  rw [List.getLast?_map, hlast, List.getLast?_range', if_neg hne] at hsequences
  have hlast' : last.sequence.toNat = _ := Option.some.inj hsequences
  apply UInt64.toNat_inj.mp
  omega

/-- One frame for each sequence after the cursor. -/
theorem length_framesAfter {after : Nat} (hfloor : snapshot.frameFloor.toNat ≤ after + 1) :
    (framesAfter snapshot after).length = snapshot.sequence.toNat - after := by
  have hw := h.window
  rw [framesAfter_eq_drop h, List.length_drop]
  omega

/-- The frames after the cursor are numbered from the cursor on. -/
theorem validFrames_framesAfter
    (hfloor : snapshot.frameFloor.toNat ≤ after.toNat + 1) (hle : after ≤ snapshot.sequence) :
    validFrames (after + 1) (framesAfter snapshot after.toNat) = true := by
  have hle := UInt64.le_iff_toNat_le.mp hle
  have hw := h.window
  have hpos := h.floor
  rw [framesAfter_eq_drop h]
  generalize hn : after.toNat + 1 - snapshot.frameFloor.toNat = n
  have hsplit := h.frames
  rw [← List.take_append_drop n snapshot.frames, validFrames_append, Bool.and_eq_true] at hsplit
  have he : snapshot.frameFloor + UInt64.ofNat (snapshot.frames.take n).length = after + 1 := by
    apply UInt64.toNat_inj.mp
    have ha := toNat_lt_two_pow after
    rw [List.length_take, UInt64.toNat_add, UInt64.toNat_add,
      UInt64.toNat_one, toNat_ofNat_lt (by omega)]
    omega
  rw [← he]
  exact hsplit.2

/-- What a successful `attach` returns: the first `limit` frames after the cursor. -/
structure Page (snapshot : Snapshot) (after : UInt64) (limit : Int) (a : Attachment) : Prop where
  bounds : 1 ≤ limit ∧ limit ≤ maxAttachFrames
  valid : SnapshotOk snapshot
  cursor : after ≤ snapshot.sequence
  floor : snapshot.frameFloor.toNat ≤ after.toNat + 1
  source : a.snapshot = snapshot
  frames : a.frames = (framesAfter snapshot after.toNat).take limit.toNat
  terminal : a.terminal = snapshot.status.terminal
  nextSequence : a.nextSequence = nextSequenceOf after a.frames
  frameFloor : a.frameFloor = snapshot.frameFloor

/-- `Attach` of a valid call, check by check. -/
theorem attach_cases {callID : CallID} (hid : validIdentity callID = true) (after : UInt64)
    (limit : Int) (hlimit : 1 ≤ limit ∧ limit ≤ maxAttachFrames) : (snapshot.sequence < after ∧
      attach (.ok snapshot) callID after limit = .error (.cursor after snapshot.sequence)) ∨
    (after.toNat + 1 < snapshot.frameFloor.toNat ∧
      attach (.ok snapshot) callID after limit = .error (.gap after snapshot.frameFloor)) ∨
    (after ≤ snapshot.sequence ∧ snapshot.frameFloor.toNat ≤ after.toNat + 1 ∧
      ∃ a, attach (.ok snapshot) callID after limit = .ok a) := by
  have hargs : ¬ limit < 1 ∧ ¬ maxAttachFrames < limit := by omega
  have hvalid := isOk_iff.mpr (validateSnapshot_ok_iff.mpr h)
  have hone : (1 : UInt64) ≤ snapshot.frameFloor := UInt64.le_iff_toNat_le.mpr h.floor
  have hgap : after < snapshot.frameFloor - 1 ↔ after.toNat + 1 < snapshot.frameFloor.toNat := by
    rw [UInt64.lt_iff_toNat_lt, UInt64.toNat_sub_of_le _ _ hone, UInt64.toNat_one]
    omega
  by_cases hc : snapshot.sequence < after
  · exact .inl ⟨hc, by simp [attach, hid, hvalid, hc, hargs]⟩
  by_cases hg : after < snapshot.frameFloor - 1
  · exact .inr (.inl ⟨hgap.mp hg, by simp [attach, hid, hvalid, hc, hg, hargs]⟩)
  · exact .inr (.inr ⟨UInt64.not_lt.mp hc, Nat.not_lt.mp (mt hgap.mpr hg),
      by simp [attach, hid, hvalid, hc, hg, hargs]⟩)

/-- A cursor between the retention floor and the end of the call has a page. -/
theorem exists_attach {callID : CallID} (hid : validIdentity callID = true) (after : UInt64)
    (limit : Int)
    (hlimit : 1 ≤ limit ∧ limit ≤ maxAttachFrames) (hcursor : after ≤ snapshot.sequence)
    (hfloor : snapshot.frameFloor.toNat ≤ after.toNat + 1) :
    ∃ a, attach (.ok snapshot) callID after limit = .ok a := by
  rcases attach_cases h hid after limit hlimit with ⟨hlt, -⟩ | ⟨hlt, -⟩ | ⟨-, -, ha⟩
  · exact absurd hlt (UInt64.not_lt.mpr hcursor)
  · omega
  · exact ha

end

theorem attach_ok {loaded : Except Error Snapshot} {callID : CallID} {limit : Int}
    {a : Attachment} (h : attach loaded callID after limit = .ok a) :
    ∃ snapshot, loaded = .ok snapshot ∧ Page snapshot after limit a := by
  unfold attach at h
  split at h
  · cases h
  rename_i hargs
  split at h
  · cases h
  rename_i snapshot
  split at h
  · cases h
  rename_i hvalid
  split at h
  · cases h
  rename_i hcursor
  split at h
  · cases h
  rename_i hgap
  simp only [Bool.or_eq_true, decide_eq_true_eq, not_or, Int.not_lt] at hargs
  simp only [Bool.not_eq_true', Bool.not_eq_false, isOk_iff, validateSnapshot_ok_iff] at hvalid
  have hcursor := UInt64.not_lt.mp hcursor
  have hone : (1 : UInt64) ≤ snapshot.frameFloor := UInt64.le_iff_toNat_le.mpr hvalid.floor
  have hsub : (snapshot.frameFloor - 1).toNat = snapshot.frameFloor.toNat - 1 := by
    rw [UInt64.toNat_sub_of_le _ _ hone, UInt64.toNat_one]
  have hgap := UInt64.not_lt.mp hgap
  have hgap' := UInt64.le_iff_toNat_le.mp hgap
  have hpos := hvalid.floor
  have hstart : (after - (snapshot.frameFloor - 1)).toNat =
      after.toNat + 1 - snapshot.frameFloor.toNat := by
    rw [UInt64.toNat_sub_of_le _ _ hgap]
    omega
  obtain rfl := Except.ok.inj h
  refine ⟨snapshot, rfl, ⟨⟨hargs.1.2, Int.not_lt.mp (by simpa using hargs.2)⟩, hvalid, hcursor,
    by omega, rfl, ?_, rfl, rfl, rfl⟩⟩
  simp only [hstart, framesAfter_eq_drop hvalid]

namespace Page

variable {limit : Int} {a : Attachment}

section

variable (h : Page snapshot after limit a)

include h

theorem validFrames : Continuation.validFrames (after + 1) a.frames = true := by
  have hall := validFrames_framesAfter h.valid h.floor h.cursor
  rw [← List.take_append_drop limit.toNat (framesAfter snapshot after.toNat), validFrames_append,
    Bool.and_eq_true] at hall
  rw [h.frames]
  exact hall.1

theorem length_frames :
    a.frames.length = min limit.toNat (snapshot.sequence.toNat - after.toNat) := by
  rw [h.frames, List.length_take, length_framesAfter h.valid h.floor]

theorem nextSequence_eq : a.nextSequence = after + 1 + UInt64.ofNat a.frames.length := by
  rw [h.nextSequence, nextSequenceOf_eq h.validFrames]

/-- The cursor after the page. -/
theorem toNat_next : (a.nextSequence - 1).toNat =
    min (after.toNat + limit.toNat) snapshot.sequence.toNat := by
  have hlen := h.length_frames
  have hle := UInt64.le_iff_toNat_le.mp h.cursor
  have hs := toNat_lt_two_pow snapshot.sequence
  have hcancel : a.nextSequence - 1 = after + UInt64.ofNat a.frames.length := by
    rw [h.nextSequence_eq, UInt64.add_assoc, UInt64.add_comm 1, ← UInt64.add_assoc,
      UInt64.add_sub_cancel]
  rw [hcancel, toNat_add_ofNat (by omega)]
  omega

end

end Page

/-! ## Histories -/

/-- A call under `Apply` commits: its snapshot at each instant. -/
structure History where
  at_ : Nat → Snapshot
  valid : SnapshotOk (at_ 0)
  step : ∀ n, at_ (n + 1) = at_ n ∨ ∃ t, apply (at_ n) t = .ok (at_ (n + 1))

namespace History

variable (h : History)

/-- Later snapshots extend earlier ones. -/
structure Extends (s s' : Snapshot) : Prop where
  floor : s'.frameFloor = s.frameFloor
  frames : s.frames <+: s'.frames
  sequence : s.sequence.toNat ≤ s'.sequence.toNat
  terminal : s.status.terminal = true → s' = s

theorem Extends.refl (s : Snapshot) : Extends s s := ⟨rfl, List.prefix_rfl, le_refl _, fun _ => rfl⟩

theorem Extends.trans {s₁ s₂ s₃ : Snapshot} (h₁ : Extends s₁ s₂) (h₂ : Extends s₂ s₃) :
    Extends s₁ s₃ := by
  refine ⟨h₂.floor.trans h₁.floor, h₁.frames.trans h₂.frames, h₁.sequence.trans h₂.sequence, ?_⟩
  intro ht
  obtain rfl := h₁.terminal ht
  exact h₂.terminal ht

theorem Extends.of_apply {s s' : Snapshot} {t : Transition} (h : apply s t = .ok s') :
    Extends s s' := by
  obtain ⟨-, -, ⟨-, rfl⟩ | ⟨-, ha, rfl⟩⟩ := apply_ok_iff.mp h
  · exact .refl _
  · refine ⟨rfl, List.prefix_append _ _, by rw [ha.toNat_sequence]; omega, fun ht => ?_⟩
    rw [ha.live] at ht
    cases ht

theorem valid_at (n : Nat) : SnapshotOk (h.at_ n) := by
  induction n with
  | zero => exact h.valid
  | succ n ih =>
    rcases h.step n with he | ⟨t, ht⟩
    · rw [he]; exact ih
    · exact apply_valid ht

theorem extends_of_le {m n : Nat} (hle : m ≤ n) : Extends (h.at_ m) (h.at_ n) := by
  induction hle with
  | refl => exact .refl _
  | step _ ih =>
    rcases h.step _ with he | ⟨t, ht⟩
    · rw [he]; exact ih
    · exact ih.trans (.of_apply ht)

end History

end Keelith.Continuation

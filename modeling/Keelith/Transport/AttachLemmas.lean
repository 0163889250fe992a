import Keelith.Transport.Attach

/-!
# What the two follow loops send

Over a call's `History` of `Apply` commits, for every list of polls that loads it at later and later
instants.

* `framesAfter_split`: a page of an earlier snapshot starts what the final call has after the
  cursor.
* `grpcAttach_step`, `pump_step`: one iteration of a loop that ends normally.
* `KeepsUp`: the pages that are still to be read hold the frames that are still to come. This is
  what the gRPC loop needs, because it ends at the first page of an ended call.
-/

namespace Keelith.Transport

open Continuation

/-! ## Pages of a growing call -/

variable {a : Attachment} {after : UInt64} {limit : Int} {poll : Poll} {callID : CallID}
  {polls : List Poll}

/-- **A page is the start of what the final call has after the cursor.** -/
theorem framesAfter_split {s final : Snapshot}
    (hp : Page s after limit a) (hext : History.Extends s final) (hf : SnapshotOk final) :
    framesAfter final after.toNat = a.frames ++ framesAfter final (a.nextSequence - 1).toNat := by
  have hle := UInt64.le_iff_toNat_le.mp hp.cursor
  have hw := hp.valid.window
  have hfloor := hp.floor
  obtain ⟨rest, hrest⟩ := hext.frames
  rw [hp.toNat_next, framesAfter_eq_drop hf, framesAfter_eq_drop hf, hp.frames,
    framesAfter_eq_drop hp.valid, hext.floor, ← hrest]
  generalize hk : after.toNat + 1 - s.frameFloor.toNat = k
  have hklen : k ≤ s.frames.length := by omega
  have hnext : min (after.toNat + limit.toNat) s.sequence.toNat + 1 - s.frameFloor.toNat =
      k + min limit.toNat (s.frames.length - k) := by omega
  rw [hnext, ← List.drop_drop, List.drop_append_of_le_length hklen]
  have htake : (s.frames.drop k).take limit.toNat =
      (s.frames.drop k ++ rest).take (min limit.toNat (s.frames.length - k)) := by
    rw [List.take_append_of_le_length (by rw [List.length_drop]; omega), List.take_eq_take_iff,
      List.length_drop]
    omega
  rw [htake, List.take_append_drop]

theorem flatMap_splitAttachPage (page : WirePage) :
    (splitAttachPage page).flatMap WirePage.frames = page.frames := by
  unfold splitAttachPage
  split
  · rename_i h0
    have hnil := List.length_eq_zero_iff.mp h0
    split <;> simp [hnil]
  · rw [List.flatMap_map]
    simp

theorem sendResponses_ok {responses : List WirePage} (h : (sendResponses poll responses).2 = true) :
    (sendResponses poll responses).1 = responses.flatMap WirePage.frames := by
  induction responses with
  | nil => rfl
  | cons response responses ih =>
    simp only [sendResponses] at h ⊢
    split at h
    · cases h
    · rename_i hs
      rw [if_neg hs, List.flatMap_cons, ih h]

/-- A page keeps its frames, its end mark and its next sequence on the wire. -/
theorem pageToWire_ok {page : WirePage} (h : pageToWire a after limit = some page) :
    page.frames = a.frames ∧ page.terminal = a.terminal ∧ page.nextSequence = a.nextSequence := by
  unfold pageToWire at h
  split at h
  · cases h
  split at h
  · cases h
  split at h
  · cases h
  split at h
  · cases h
  cases h
  exact ⟨rfl, rfl, rfl⟩

/-- An empty page leaves the cursor. -/
theorem Page.next_of_empty {s : Snapshot}
    (hp : Page s after limit a) (h : a.frames.length = 0) : a.nextSequence - 1 = after := by
  rw [hp.nextSequence, List.length_eq_zero_iff.mp h]
  exact UInt64.add_sub_cancel after 1

/-- One iteration of `Server.Attach` in a run that ends normally. -/
theorem grpcAttach_step (h : (grpcAttach callID limit after (poll :: polls)).ending = .ended) :
    ∃ s a, poll.loaded = .ok s ∧ Page s after limit a ∧
      ((s.status.terminal = true ∧
          (grpcAttach callID limit after (poll :: polls)).sent = a.frames) ∨
       (s.status.terminal = false ∧
          (grpcAttach callID limit (a.nextSequence - 1) polls).ending = .ended ∧
          (grpcAttach callID limit after (poll :: polls)).sent =
            a.frames ++ (grpcAttach callID limit (a.nextSequence - 1) polls).sent)) := by
  simp only [grpcAttach] at h ⊢
  split at h
  · cases h
  rename_i a ha
  obtain ⟨s, hs, hp⟩ := attach_ok ha
  split at h
  · cases h
  rename_i page hpage
  obtain ⟨hframes, hterm, hnext⟩ := pageToWire_ok hpage
  split at h
  · cases h
  rename_i hsent
  have hok : (sendResponses poll (splitAttachPage page)).2 = true := by simpa using hsent
  have hall := sendResponses_ok hok
  rw [flatMap_splitAttachPage, hframes] at hall
  refine ⟨s, a, hs, hp, ?_⟩
  simp only [hok]
  split at h
  · rename_i ht
    rw [hterm, hp.terminal] at ht
    exact .inl ⟨ht, by simp [hterm, hp.terminal, ht, hall]⟩
  rename_i ht
  have hlive : s.status.terminal = false := by rw [hterm, hp.terminal] at ht; simpa using ht
  refine .inr ⟨hlive, ?_⟩
  simp only [hterm, hp.terminal, hlive] at h ⊢
  split at h
  · rename_i hpos
    rw [if_pos hpos]
    rw [hnext] at h ⊢
    exact ⟨h, by simp [Outcome.prepend, hall]⟩
  · rename_i hpos
    have hzero : a.frames.length = 0 := by rw [hframes] at hpos; omega
    rw [if_neg hpos]
    split at h
    · cases h
    rename_i hc
    rw [if_neg hc, Page.next_of_empty hp hzero]
    exact ⟨h, by simp [Outcome.prepend, hall]⟩

/-- The events of frames that are numbered from the cursor on move the cursor by their number. -/
theorem sendEvents_none {snapshot : Snapshot} {frames : List Frame}
    (hv : contiguous (after + 1) frames = true)
    (h : (sendEvents poll snapshot after frames).2.2 = none) :
    (sendEvents poll snapshot after frames).1 = frames ∧
      (sendEvents poll snapshot after frames).2.1 = after + UInt64.ofNat frames.length := by
  induction frames generalizing after with
  | nil => simp [sendEvents]
  | cons frame frames ih =>
    simp only [contiguous, Bool.and_eq_true, beq_iff_eq] at hv
    simp only [sendEvents] at h ⊢
    split at h
    · cases h
    rename_i hfit
    split at h
    · cases h
    rename_i hsend
    rw [if_neg hfit, if_neg hsend]
    obtain ⟨h1, h2⟩ := ih (by rw [hv.1]; exact hv.2) h
    refine ⟨by rw [h1], ?_⟩
    rw [h2, hv.1, List.length_cons, UInt64.ofNat_add, UInt64.add_assoc,
      UInt64.add_comm 1]
    rfl

/-- The event loop is not left early with the normal end. -/
theorem sendEvents_ne_ended {snapshot : Snapshot} {frames : List Frame} :
    (sendEvents poll snapshot after frames).2.2 ≠ some .ended := by
  induction frames generalizing after with
  | nil => nofun
  | cons frame frames ih =>
    simp only [sendEvents]
    split
    · nofun
    split
    · nofun
    · exact ih

/-- One iteration of `pumpContinuationEvents` in a run that ends normally. -/
theorem pump_step (h : (pumpContinuationEvents callID limit after (poll :: polls)).ending =
    .ended) : ∃ s a, poll.loaded = .ok s ∧ Page s after limit a ∧
      ((s.status.terminal = true ∧ (a.nextSequence - 1) = s.sequence ∧
          (pumpContinuationEvents callID limit after (poll :: polls)).sent = a.frames) ∨
       ((pumpContinuationEvents callID limit (a.nextSequence - 1) polls).ending = .ended ∧
          (pumpContinuationEvents callID limit after (poll :: polls)).sent =
            a.frames ++
              (pumpContinuationEvents callID limit (a.nextSequence - 1) polls).sent)) := by
  simp only [pumpContinuationEvents] at h ⊢
  split at h
  · cases h
  rename_i a ha
  obtain ⟨s, hs, hp⟩ := attach_ok ha
  split at h
  · cases h
  rename_i hv
  rw [if_neg hv]
  have hcont : contiguous (after + 1) a.frames = true := by
    simp only [validateContinuationAttachment, Bool.not_eq_true', Bool.and_eq_true,
      Bool.not_eq_false] at hv
    exact hv.1.2
  refine ⟨s, a, hs, hp, ?_⟩
  split at h
  · rename_i ending he
    obtain rfl : ending = .ended := h
    exact absurd he sendEvents_ne_ended
  rename_i hnone
  obtain ⟨hsent, hcur⟩ := sendEvents_none hcont hnone
  have hnext : (sendEvents poll a.snapshot after a.frames).2.1 = a.nextSequence - 1 := by
    rw [hcur, hp.nextSequence_eq, UInt64.add_assoc, UInt64.add_comm 1, ← UInt64.add_assoc,
      UInt64.add_sub_cancel]
  simp only [hsent, hnext] at h ⊢
  split at h
  · rename_i hend
    rw [if_pos hend]
    simp only [Bool.and_eq_true, beq_iff_eq, hp.terminal, hp.source] at hend
    exact .inl ⟨hend.1, hend.2, rfl⟩
  rename_i hend
  rw [if_neg hend]
  split at h
  · rename_i hlt
    rw [if_pos hlt]
    exact .inr ⟨h, rfl⟩
  rename_i hlt
  rw [if_neg hlt]
  split at h
  · cases h
  rename_i hc
  rw [if_neg hc]
  exact .inr ⟨h, rfl⟩

/-! ## Runs over a history -/

/-- The polls load the call at later and later instants, from `m` on. -/
def OnHistory (h : History) : Nat → List Poll → Prop
  | _, [] => True
  | m, poll :: polls =>
    ∃ n, m ≤ n ∧ (∀ s, poll.loaded = .ok s → s = h.at_ n) ∧ OnHistory h n polls

/-- The sequence of the call that a poll loads. -/
def loadedSequence (poll : Poll) : Nat :=
  match poll.loaded with
  | .ok s => s.sequence.toNat
  | .error _ => 0

/-- The cursor after pages of calls with these sequences. -/
def cursorAfter (limit after : Nat) : List Nat → Nat
  | [] => after
  | sequence :: sequences => cursorAfter limit (min (after + limit) sequence) sequences

/-- The pages still to be read hold all frames up to `final`: from the start cursor on, and from the
call as each earlier poll saw it. -/
structure KeepsUp (limit after final : Nat) (sequences : List Nat) : Prop where
  start : final ≤ after + (sequences.length + 1) * limit
  polls : ∀ k sequence, sequences[k]? = some sequence →
    final ≤ sequence + (sequences.length - k) * limit

theorem keepsUp_iff {limit after final : Nat} {sequences : List Nat} :
    KeepsUp limit after final sequences ↔
      final ≤ cursorAfter limit after sequences + limit := by
  induction sequences generalizing after with
  | nil =>
    constructor
    · intro h
      simpa [cursorAfter] using h.start
    · intro h
      exact ⟨by simpa [cursorAfter] using h, by simp⟩
  | cons sequence sequences ih =>
    rw [cursorAfter, ← ih]
    have hmul : (sequences.length + 1 + 1) * limit = limit + (sequences.length + 1) * limit := by
      rw [Nat.add_mul (sequences.length + 1), Nat.one_mul, Nat.add_comm]
    constructor
    · intro h
      have h0 := h.polls 0 sequence rfl
      have hs := h.start
      simp only [List.length_cons, Nat.sub_zero] at h0 hs
      refine ⟨by omega, fun k s hk => ?_⟩
      have := h.polls (k + 1) s (by simpa using hk)
      simpa using this
    · intro h
      have hs := h.start
      refine ⟨by rw [List.length_cons]; omega, fun k s hk => ?_⟩
      cases k with
      | zero =>
        obtain rfl : sequence = s := by simpa using hk
        rw [List.length_cons, Nat.sub_zero]
        omega
      | succ k =>
        have := h.polls k s (by simpa using hk)
        simpa using this

/-- The part of `polls` that a gRPC loop reads: calls that go on, then the ended call `final`. -/
structure ReadsUntil (polls before : List Poll) (final : Snapshot) : Prop where
  split : ∃ last rest, polls = before ++ last :: rest ∧ last.loaded = .ok final
  live : ∀ poll ∈ before, ∃ s, poll.loaded = .ok s ∧ s.status.terminal = false
  ended : final.status.terminal = true

/-- What a gRPC loop that ends normally sent: all frames up to the cursor of its last page, and the
first `limit` after it. -/
theorem grpcAttach_run {h : History} {m : Nat} (hon : OnHistory h m polls)
    (hend : (grpcAttach callID limit after polls).ending = .ended) :
    ∃ before final n, ReadsUntil polls before final ∧ m ≤ n ∧ final = h.at_ n ∧
      ∃ cursor, cursor = cursorAfter limit.toNat after.toNat (before.map loadedSequence) ∧
        final.frameFloor.toNat ≤ cursor + 1 ∧
        ∃ sent, framesAfter final after.toNat = sent ++ framesAfter final cursor ∧
          (grpcAttach callID limit after polls).sent =
            sent ++ (framesAfter final cursor).take limit.toNat := by
  induction polls generalizing m after with
  | nil => cases hend
  | cons poll polls ih =>
    obtain ⟨n, hmn, hload, hrest⟩ := hon
    obtain ⟨s, a, hs, hp, ⟨hterm, hsent⟩ | ⟨hlive, hend', hsent⟩⟩ := grpcAttach_step hend
    · refine ⟨[], s, n, ⟨⟨poll, polls, rfl, hs⟩, by simp, hterm⟩, hmn, hload s hs, after.toNat,
        rfl, hp.floor, [], rfl, ?_⟩
      rw [hsent, hp.frames, List.nil_append]
    · obtain ⟨before, final, k, hreads, hnk, hfinal, cursor, hcursor, hfloor, sent, hsplit, hall⟩ :=
        ih hrest hend'
      have hext : History.Extends s final := by
        rw [hload s hs, hfinal]
        exact h.extends_of_le hnk
      have hvalid : SnapshotOk final := by rw [hfinal]; exact h.valid_at k
      obtain ⟨last, rest, hpolls, hlast⟩ := hreads.split
      refine ⟨poll :: before, final, k, ⟨⟨last, rest, by rw [hpolls]; rfl, hlast⟩, ?_,
        hreads.ended⟩, hmn.trans hnk, hfinal, cursor, ?_, hfloor, a.frames ++ sent, ?_, ?_⟩
      · intro p hmem
        rcases List.mem_cons.mp hmem with rfl | hmem
        · exact ⟨s, hs, hlive⟩
        · exact hreads.live p hmem
      · rw [hcursor, List.map_cons, cursorAfter, hp.toNat_next]
        simp [loadedSequence, hs]
      · rw [framesAfter_split hp hext hvalid, hsplit, List.append_assoc]
      · rw [hsent, hall, List.append_assoc]

/-- **The HTTP loop loses no frame.** -/
theorem pump_run {h : History} {m : Nat} (hon : OnHistory h m polls)
    (hend : (pumpContinuationEvents callID limit after polls).ending = .ended) :
    ∃ n, m ≤ n ∧ (h.at_ n).status.terminal = true ∧
      (pumpContinuationEvents callID limit after polls).sent =
        framesAfter (h.at_ n) after.toNat := by
  induction polls generalizing m after with
  | nil => cases hend
  | cons poll polls ih =>
    obtain ⟨n, hmn, hload, hrest⟩ := hon
    obtain ⟨s, a, hs, hp, ⟨hterm, hlast, hsent⟩ | ⟨hend', hsent⟩⟩ := pump_step hend
    · obtain rfl := hload s hs
      refine ⟨n, hmn, hterm, ?_⟩
      have hnone : framesAfter (h.at_ n) (h.at_ n).sequence.toNat = [] := by
        rw [← List.length_eq_zero_iff,
          length_framesAfter hp.valid (by have := hp.valid.window; omega)]
        omega
      rw [hsent, framesAfter_split hp (.refl _) hp.valid, hlast, hnone, List.append_nil]
    · obtain ⟨k, hnk, hterm, hall⟩ := ih hrest hend'
      have hext : History.Extends s (h.at_ k) := by
        rw [hload s hs]
        exact h.extends_of_le hnk
      refine ⟨k, hmn.trans hnk, hterm, ?_⟩
      rw [hsent, hall, framesAfter_split hp hext (h.valid_at k)]

/-- An ended call is the same at all instants at which it has ended. -/
theorem ended_unique (h : History) {m n : Nat} (hm : (h.at_ m).status.terminal = true)
    (hn : (h.at_ n).status.terminal = true) : h.at_ m = h.at_ n := by
  rcases Nat.le_total m n with hle | hle
  · exact ((h.extends_of_le hle).terminal hm).symm
  · exact (h.extends_of_le hle).terminal hn

/-- **When the gRPC loop loses no frame.** Let `Server.Attach` end normally, over any history of the
call and any polls of it. It read some calls that went on and then the ended call `final`. It sent
exactly the frames of `final` after the cursor, which is what every HTTP loop over the same history
sends that ends normally, if and only if its pages kept up with the call. -/
theorem grpc_attach_complete_iff {h : History} {callID : CallID} {limit : Int} {after : UInt64}
    {polls : List Poll} (hon : OnHistory h 0 polls)
    (hend : (grpcAttach callID limit after polls).ending = .ended) :
    ∃ before final, ReadsUntil polls before final ∧ (∃ n, final = h.at_ n) ∧
      (((grpcAttach callID limit after polls).sent = framesAfter final after.toNat ∧
        ∀ pageSize others, OnHistory h 0 others →
          (pumpContinuationEvents callID pageSize after others).ending = .ended →
          (pumpContinuationEvents callID pageSize after others).sent =
            (grpcAttach callID limit after polls).sent) ↔
      KeepsUp limit.toNat after.toNat final.sequence.toNat (before.map loadedSequence)) := by
  obtain ⟨before, final, n, hreads, -, hfinal, cursor, hcursor, hfloor, sent, hsplit, hall⟩ :=
    grpcAttach_run hon hend
  refine ⟨before, final, hreads, ⟨n, hfinal⟩, ?_⟩
  have hvalid : SnapshotOk final := by rw [hfinal]; exact h.valid_at n
  have hlen := length_framesAfter hvalid hfloor
  have hsent : (grpcAttach callID limit after polls).sent = framesAfter final after.toNat ↔
      final.sequence.toNat ≤ cursor + limit.toNat := by
    rw [hall, hsplit, List.append_cancel_left_eq, List.take_eq_self_iff]
    omega
  rw [keepsUp_iff, ← hcursor, ← hsent]
  constructor
  · exact fun hboth => hboth.1
  · intro hgrpc
    refine ⟨hgrpc, fun pageSize others hon' hend' => ?_⟩
    obtain ⟨k, -, hterm, hhttp⟩ := pump_run hon' hend'
    have hsame : h.at_ k = final := by
      rw [hfinal]
      exact ended_unique h hterm (by rw [← hfinal]; exact hreads.ended)
    rw [hhttp, hsame, hgrpc]

/-- A running call without frames. -/
def openCall : Snapshot :=
  { callID := "c", operation := "/s/m", status := .running, readyAt := Time.zero, revision := 2,
    fence := 1, sequence := 0, frameFloor := 1, frames := [], commands := ∅, workflow := none }

/-- The call after it completed with two frames. -/
def endedCall : Snapshot :=
  { openCall with
    status := .completed, revision := 3, sequence := 2
    frames := [⟨1, .event, [7]⟩, ⟨2, .completed, [8]⟩] }

/-- The call completes with two frames in one step. -/
def completing : History where
  at_ n := if n = 0 then openCall else endedCall
  valid := validateSnapshot_ok_iff.mp rfl
  step n := by
    cases n with
    | zero => exact .inr ⟨move .completed 1 [⟨0, .event, [7]⟩, ⟨0, .completed, [8]⟩], rfl⟩
    | succ n => exact .inl rfl

/-- Two polls of the ended call. -/
def endedPolls : List Poll := [{ loaded := .ok endedCall }, { loaded := .ok endedCall }]

theorem endedPolls_onHistory : OnHistory completing 0 endedPolls := by
  have hload : ∀ s, (Except.ok endedCall : Except Error Snapshot) = .ok s → s = completing.at_ 1 :=
    fun s hs => (Except.ok.inj hs).symm
  exact ⟨1, by decide, hload, 1, by decide, hload, trivial⟩

/-- With pages of one frame the gRPC loop ends normally after the first of two frames; the HTTP loop
sends both. -/
theorem grpc_attach_loses_frame : OnHistory completing 0 endedPolls ∧
    (grpcAttach "c" 1 0 endedPolls).ending = .ended ∧
    (grpcAttach "c" 1 0 endedPolls).sent = [⟨1, .event, [7]⟩] ∧
    (grpcAttach "c" 1 0 endedPolls).sent ≠ framesAfter endedCall 0 ∧
    (pumpContinuationEvents "c" 1 0 endedPolls).ending = .ended ∧
    (pumpContinuationEvents "c" 1 0 endedPolls).sent = framesAfter endedCall 0 :=
  ⟨endedPolls_onHistory, rfl, rfl, by decide, rfl, rfl⟩

/-- With pages of two frames the gRPC loop sends both. -/
theorem grpc_attach_two_frames : (grpcAttach "c" 2 0 endedPolls).sent =
    framesAfter endedCall 0 := by
  obtain ⟨before, final, hreads, ⟨n, hfinal⟩, hiff⟩ :=
    @grpc_attach_complete_iff completing "c" 2 0 endedPolls endedPolls_onHistory rfl
  have hsame : final = endedCall :=
    hfinal.trans (ended_unique completing (by rw [← hfinal]; exact hreads.ended)
      (rfl : (completing.at_ 1).status.terminal = true))
  subst hsame
  refine (hiff.mpr ⟨?_, ?_⟩).1
  · show 2 ≤ 0 + (_ + 1) * 2
    omega
  · -- the first poll already sees the ended call, so nothing was read before it
    obtain ⟨last, rest, hsplit, -⟩ := hreads.split
    intro k sequence hk
    cases before with
    | nil => simp at hk
    | cons poll before =>
      obtain ⟨s, hs, hlive⟩ := hreads.live poll (by simp)
      obtain rfl := (List.cons.inj hsplit).1
      cases hs
      cases hlive

end Keelith.Transport

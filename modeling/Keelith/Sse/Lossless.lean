import Keelith.Sse.Cut

/-!
# A complete stream

What `Render` writes, `consumeProtoSSE` reads: for every event one entry with its name and its data,
in order, whatever the data contains (`render_lossless`). The id and the delay of an entry are the
last ones up to its event.

`framing` is the client before `protojson`: it takes every payload as it is. `EventLimit` is an
event size that the options of the client accept; the server renders with the same limit.
-/

namespace Keelith.Sse

open Bytes

/-- An accepted `maxEventBytes`. -/
structure EventLimit where
  maxEventBytes : Nat
  minimum : 256 ≤ maxEventBytes
  maximum : maxEventBytes ≤ 1024 * 1024

/-- `defaultSSEEventBytes`. -/
def EventLimit.default : EventLimit := ⟨64 * 1024, by decide, by decide⟩

def withSSEClientMaxEventBytes (maxBytes : Int) : Except ReadError EventLimit :=
  if h : maxBytes < 256 ∨ 1024 * 1024 < maxBytes then .error .invalid
  else .ok ⟨maxBytes.toNat, by omega, by omega⟩

/-- The client before a payload is decoded. -/
def framing (limit : EventLimit) : Client Bytes := ⟨some, limit.maxEventBytes⟩

/-- The events among the frames. -/
def events (frames : List Frame) : List Event :=
  frames.filterMap fun
    | .event e => some e
    | .heartbeat => none

/-- The last id that is not empty. -/
def lastID (events : List Event) : Bytes := ((events.map Event.id).filter (· ≠ [])).getLast?.getD []

/-- The last delay that is not zero. -/
def lastRetry (events : List Event) : Duration :=
  ((events.map Event.retry).filter (· ≠ 0)).getLast?.getD 0

/-- The entry of the last one of some events. -/
def entry (event : Event) (upTo : List Event) : Message Bytes :=
  ⟨lastID upTo, event.name, event.text, lastRetry upTo⟩

/-- One entry for each event. -/
def entries (events : List Event) : List (Message Bytes) :=
  events.mapIdx fun i event => entry event (events.take (i + 1))

theorem lastID_concat (past : List Event) (event : Event) :
    lastID (past ++ [event]) = if event.id = [] then lastID past else event.id := by
  by_cases h : event.id = [] <;> simp [lastID, h]

theorem lastRetry_concat (past : List Event) (event : Event) :
    lastRetry (past ++ [event]) = if event.retry = 0 then lastRetry past else event.retry := by
  by_cases h : event.retry = 0 <;> simp [lastRetry, h]

/-- The messages of the client are the entries, after any number of earlier events. -/
theorem expected_framing (limit : EventLimit) (past : List Event) (frames : List Frame) :
    expected (framing limit) (lastID past) (lastRetry past) frames =
      ((events frames).mapIdx fun i event =>
        entry event (past ++ (events frames).take (i + 1))).map some := by
  induction frames generalizing past with
  | nil => rfl
  | cons frame frames ih =>
    cases frame with
    | heartbeat => exact ih past
    | event e =>
      have hevents : events (.event e :: frames) = e :: events frames := rfl
      rw [expected, ← lastID_concat, ← lastRetry_concat, ih (past ++ [e]), hevents,
        List.mapIdx_cons]
      simp only [List.append_assoc]
      rfl

theorem readable_framing {limit : EventLimit} {frame : Frame} {chunk : Bytes}
    (h : frame.render limit.maxEventBytes = .ok chunk) : Readable (framing limit) frame := by
  cases frame with
  | event e =>
    obtain ⟨-, hchunk, hsize⟩ := render_eq_ok h
    exact ⟨hchunk ▸ hsize, rfl⟩
  | heartbeat =>
    have hlength : (written Frame.heartbeat.lines).length ≤ 256 := by decide
    exact Nat.le_trans hlength limit.minimum

theorem forall_readable {limit : EventLimit} {frames : List Frame} {chunks : List Bytes}
    (h : List.Forall₂ (fun frame chunk => frame.render limit.maxEventBytes = .ok chunk)
      frames chunks) : ∀ frame ∈ frames, Readable (framing limit) frame := by
  induction h with
  | nil => simp
  | cons hframe _ ih => exact List.forall_mem_cons.mpr ⟨readable_framing hframe, ih⟩

/-- The client reads one entry for each rendered event, in order, and does not fail. -/
theorem render_lossless (limit : EventLimit) (frames : List Frame) (chunks : List Bytes)
    (hchunks : List.Forall₂ (fun frame chunk => frame.render limit.maxEventBytes = .ok chunk)
      frames chunks) :
    (consumeProtoSSE (framing limit) chunks.flatten).1.sent = entries (events frames) ∧
      (consumeProtoSSE (framing limit) chunks.flatten).2 = none := by
  obtain ⟨hvalid, hwritten⟩ := forall₂_written hchunks
  have hread := forall_readable hchunks
  have hscan : scanLines chunks.flatten = frames.flatMap Frame.lines := by
    simpa [← hwritten] using scanLines_frames hvalid []
  have hstart : (State.start : State Bytes).Fresh := ⟨rfl, rfl, rfl⟩
  obtain ⟨st, hst, hfresh, hsent⟩ := (readLines_frames (c := framing limit) hvalid hstart).1 hread
  have hentries : st.sent.map some = (entries (events frames)).map some :=
    hsent.trans (expected_framing limit [] frames)
  rw [consumeProtoSSE, hscan, hst, finish_noData hfresh.data]
  exact ⟨List.map_injective_iff.mpr (fun _ _ => Option.some.inj) hentries, rfl⟩

/-! ## Line ends and colons in the data -/

namespace TwoEvents

/-- An event whose data looks like fields and like the end of an event. -/
def first : Event := ⟨ascii "7".toList, ascii "note".toList,
    ascii "a\r\n\r\nid: 8\r data".toList, 0⟩

/-- An event without an id. -/
def second : Event := ⟨[], [], ascii ": b".toList, 100 * millisecond⟩

def frames : List Frame := [.event first, .heartbeat, .event second]

def chunks : List Bytes :=
  [ascii "id: 7\nevent: note\ndata: a\ndata: \ndata: id: 8\ndata:  data\n\n".toList,
    ascii ": keelith-keepalive\n\n".toList, ascii "retry: 100\ndata: : b\n\n".toList]

theorem evaluated :
    Sse.render (64 * 1024) first =
      .ok (ascii "id: 7\nevent: note\ndata: a\ndata: \ndata: id: 8\ndata:  data\n\n".toList) ∧
      Frame.heartbeat.render (64 * 1024) = .ok (ascii ": keelith-keepalive\n\n".toList) ∧
      Sse.render (64 * 1024) second = .ok (ascii "retry: 100\ndata: : b\n\n".toList) ∧
      entries (events frames) =
        [⟨ascii "7".toList, ascii "note".toList, ascii "a\n\nid: 8\n data".toList, 0⟩,
          ⟨ascii "7".toList, [], ascii ": b".toList, 100 * millisecond⟩] := by
  decide +kernel

/-- Both events are read as they were sent. -/
theorem both_read :
    (consumeProtoSSE (framing .default) chunks.flatten).1.sent =
      [⟨ascii "7".toList, ascii "note".toList, ascii "a\n\nid: 8\n data".toList, 0⟩,
        ⟨ascii "7".toList, [], ascii ": b".toList, 100 * millisecond⟩] := by
  have hchunks : List.Forall₂ (fun frame chunk =>
    Frame.render EventLimit.default.maxEventBytes frame = .ok chunk)
      frames chunks := .cons evaluated.1 (.cons evaluated.2.1 (.cons evaluated.2.2.1 .nil))
  rw [(render_lossless .default frames chunks hchunks).1, evaluated.2.2.2]

end TwoEvents

end Keelith.Sse

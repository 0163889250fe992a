import Keelith.Transport.AttachLemmas

/-!
# The HTTP client of a call

`ContinuationClientStream.Recv` and the receive loop of `ContinuationClient.Call`
(`transport/http/continuation/client.go`), against what `pumpContinuationEvents` sends.

- **Messages** (`Message`, `AttachPage`): an event as the client receives it. `ready_at` and the
  workflow of a snapshot are not read by the client and are left out, but count in the bytes of the
  event.
- **In between** (`Wire`): the encoder of the server and the reader of the client refuse an event
  above their budgets, and the stream is over; nothing else is lost or changed.
- **The client** (`ClientStream.recv`, `receive`, `callOn`): every check of `Recv`, and what `Call`
  does with a response.
- **The server** (`pumpedFrames`): the frames of `pumpContinuationEvents`, each with the snapshot
  that it is sent with.

`Apply` accepts any kind of frame with any status, and payloads up to the budget of an event. `Fits`
is what the client wants of a frame and its snapshot: `client_follows_iff` says that it accepts all
that the server can send for a call, and `Call` returns at its end, exactly if the frames of the
call fit at every instant, and so do their events (`Conforms`).
-/

namespace Keelith.Transport

open Continuation

/-! ## Messages -/

/-- `continuationv1.CallStatus`. -/
inductive CallStatus where
  | unspecified
  | accepted
  | running
  | waiting
  | suspended
  | cancelRequested
  | completed
  | failed
  | canceled
  | expired
  deriving DecidableEq

/-- `continuationv1.FrameKind`. -/
inductive WireFrameKind where
  | unspecified
  | accepted
  | event
  | waiting
  | signal
  | suspended
  | cancelRequested
  | completed
  | failed
  | canceled
  | expired
  | workflowChild
  deriving DecidableEq

/-- `continuationv1.Frame`. -/
structure WireFrame where
  sequence : UInt64
  kind : WireFrameKind
  payload : List UInt8
  deriving DecidableEq

/-- `continuationv1.Snapshot`. -/
structure WireSnapshot where
  callID : String
  operation : String
  status : CallStatus
  revision : UInt64
  fence : UInt64
  sequence : UInt64
  frameFloor : UInt64
  terminal : Bool
  deriving DecidableEq

/-- `continuationv1.Page` of an `AttachResponse`. -/
structure AttachPage where
  snapshot : Option WireSnapshot
  frames : List WireFrame
  nextSequence : UInt64
  frameFloor : UInt64
  terminal : Bool
  deriving DecidableEq

/-- An event of the stream. -/
structure Message where
  id : String
  name : String
  page : Option AttachPage
  /-- The length of what `Render` writes for it. -/
  bytes : Nat
  deriving DecidableEq

/-- The rendered size of an event (`protojson` is external), and the budgets for it. -/
structure Wire where
  rendered : Snapshot → Frame → Nat
  /-- `MaxEventBytes` of the server's encoder. -/
  eventBytes : Nat
  /-- `maxEventBytes` of the client's reader. -/
  eventSize : Nat

/-- Neither `Render` nor `consumeProtoSSE` finds the event too large. -/
def Wire.carries (w : Wire) (bytes : Nat) : Bool := bytes ≤ w.eventBytes && bytes ≤ w.eventSize

def continuationEvent : String := "continuation.frame.v1"

/-- `strconv.FormatUint` with base ten. -/
def formatUint (value : UInt64) : String := toString value.toNat

def continuationProtoStatus : Status → CallStatus
  | .accepted => .accepted
  | .running => .running
  | .waiting => .waiting
  | .suspended => .suspended
  | .cancelRequested => .cancelRequested
  | .completed => .completed
  | .failed => .failed
  | .canceled => .canceled
  | .expired => .expired
  | .other _ => .unspecified

def continuationProtoFrameKind : FrameKind → WireFrameKind
  | .accepted => .accepted
  | .event => .event
  | .waiting => .waiting
  | .signal => .signal
  | .suspended => .suspended
  | .cancelRequested => .cancelRequested
  | .completed => .completed
  | .failed => .failed
  | .canceled => .canceled
  | .expired => .expired
  | .workflowChild => .workflowChild
  | .other _ => .unspecified

def continuationProtoSnapshot (snapshot : Snapshot) : WireSnapshot :=
  { callID := snapshot.callID
    operation := snapshot.operation
    status := continuationProtoStatus snapshot.status
    revision := snapshot.revision
    fence := snapshot.fence
    sequence := snapshot.sequence
    frameFloor := snapshot.frameFloor
    terminal := snapshot.status.terminal }

/-- The frame of an event. -/
def continuationProtoFrame (frame : Frame) : WireFrame :=
  { sequence := frame.sequence, kind := continuationProtoFrameKind frame.kind
    payload := frame.payload }

/-- The event of `continuationFrameEvent`. -/
def frameMessage (w : Wire) (snapshot : Snapshot) (frame : Frame) : Message :=
  { id := formatUint frame.sequence
    name := continuationEvent
    page := some
      { snapshot := some (continuationProtoSnapshot snapshot)
        frames := [continuationProtoFrame frame]
        nextSequence := frame.sequence + 1
        frameFloor := snapshot.frameFloor
        terminal := snapshot.status.terminal }
    bytes := w.rendered snapshot frame }

/-- The frames that `pumpContinuationEvents` sends, each with the snapshot of its page. -/
def pumpedFrames (callID : CallID) (pageSize : Int) (after : UInt64) :
    List Poll → List (Snapshot × Frame)
  | [] => []
  | poll :: polls =>
    match attach poll.loaded callID after pageSize with
    | .error _ => []
    | .ok a =>
      if !validateContinuationAttachment a after pageSize then []
      else
        let sent := sendEvents poll a.snapshot after a.frames
        let frames := sent.1.map fun frame => (a.snapshot, frame)
        match sent.2.2 with
        | some _ => frames
        | none =>
          if a.terminal && sent.2.1 == a.snapshot.sequence then frames
          else if sent.2.1 < a.snapshot.sequence then frames ++
            pumpedFrames callID pageSize sent.2.1 polls
          else if poll.canceled then frames
          else frames ++ pumpedFrames callID pageSize sent.2.1 polls

/-- The events that `pumpContinuationEvents` sends. -/
def pumpedMessages (w : Wire) (callID : CallID) (pageSize : Int) (after : UInt64)
    (polls : List Poll) : List Message :=
  (pumpedFrames callID pageSize after polls).map fun (snapshot, frame) =>
    frameMessage w snapshot frame

/-! ## The client -/

def maxContinuationPayloadBytes : Nat := 1024 * 1024

/-- The errors of the client. -/
inductive ClientError where
  /-- `ErrInvalidContinuationProtocol`. -/
  | invalidProtocol
  /-- `ErrInvalidContinuationProtocol`, with a text. -/
  | operationChanged
  /-- `ErrResponseTooLarge`, of the encoder or of the client. -/
  | responseTooLarge
  /-- `ErrContinuationTerminal`, with the status. -/
  | terminal (status : CallStatus)
  deriving DecidableEq

/-- `continuationStatusTerminal`; `none` is a status that is not valid. -/
def continuationStatusTerminal : CallStatus → Option Bool
  | .accepted | .running | .waiting | .suspended | .cancelRequested => some false
  | .completed | .failed | .canceled | .expired => some true
  | .unspecified => none

/-- `validateContinuationSnapshot`: the operation. -/
def validateContinuationSnapshot (snapshot : Option WireSnapshot) (callID : String) :
    Option String :=
  match snapshot with
  | none => none
  | some s =>
    if s.callID != callID || s.revision == 0 || s.sequence == 0 || s.frameFloor == 0 ||
        s.frameFloor > s.sequence + 1 then none
    else if !validIdentity s.callID then none
    else if !validOperation s.operation then none
    else
      match continuationStatusTerminal s.status with
      | none => none
      | some terminal => if terminal != s.terminal then none else some s.operation

def continuationTerminalFrameMatches (snapshot : WireSnapshot) (frame : WireFrame) : Bool :=
  if frame.sequence != snapshot.sequence ||
      frame.payload.length > maxContinuationPayloadBytes then false
  else
    match snapshot.status with
    | .completed => frame.kind == .completed
    | .failed => frame.kind == .failed
    | .canceled => frame.kind == .canceled
    | .expired => frame.kind == .expired
    | _ => false

def continuationFrameKindTerminal : WireFrameKind → Bool
  | .completed | .failed | .canceled | .expired => true
  | _ => false

def continuationCompletedPayload (snapshot : WireSnapshot) (frame : WireFrame) :
    Except ClientError (List UInt8) :=
  if !continuationTerminalFrameMatches snapshot frame then .error .invalidProtocol
  else if snapshot.status != .completed then .error (.terminal snapshot.status)
  else .ok frame.payload

/-- `ContinuationClientStream`; the operation is empty until the first event. -/
structure ClientStream where
  callID : String
  operation : String
  after : UInt64
  deriving DecidableEq

/-- The stream that `ContinuationClient.Attach` opens. -/
def ClientStream.attach (callID : String) (after : UInt64) : ClientStream := ⟨callID, "", after⟩

/-- `ContinuationClientStream.Recv`, for the next event. -/
def ClientStream.recv (stream : ClientStream) (message : Message) :
    Except ClientError ClientStream :=
  match message.page with
  | some ⟨snapshot, [frame], nextSequence, frameFloor, terminal⟩ =>
    if message.name != continuationEvent || frame.sequence != stream.after + 1 ||
        message.id != formatUint frame.sequence || frame.kind == .unspecified ||
        frame.payload.length > maxContinuationPayloadBytes ||
          nextSequence != frame.sequence + 1 then
      .error .invalidProtocol
    else
      match snapshot, validateContinuationSnapshot snapshot stream.callID with
      | some snapshot, some operationName =>
        if snapshot.sequence < frame.sequence || frameFloor != snapshot.frameFloor ||
            terminal != snapshot.terminal then .error .invalidProtocol
        else if stream.operation != "" && stream.operation != operationName then
          .error .invalidProtocol
        else if frame.sequence == snapshot.sequence && snapshot.terminal &&
            !continuationTerminalFrameMatches snapshot frame then .error .invalidProtocol
        else if !snapshot.terminal && continuationFrameKindTerminal frame.kind then
          .error .invalidProtocol
        else .ok { stream with operation := operationName, after := frame.sequence }
      | _, _ => .error .invalidProtocol
  | _ => .error .invalidProtocol

/-- The events of a stream, up to the first that is too large or that `Recv` rejects. -/
def receive (w : Wire) (stream : ClientStream) : List Message → Except ClientError ClientStream
  | [] => .ok stream
  | message :: messages =>
    if !w.carries message.bytes then .error .responseTooLarge
    else do
      let stream ← stream.recv message
      receive w stream messages

/-- What `ContinuationClient.Call` does with a response of `Recv`: it returns, or takes the next one
(`none`). -/
def callOn (target : String) (message : Message) : Option (Except ClientError (List UInt8)) :=
  match message.page with
  | some ⟨some snapshot, frame :: _, _, _, _⟩ =>
    if snapshot.operation != target then some (.error .operationChanged)
    else if snapshot.terminal && frame.sequence == snapshot.sequence then
      some (continuationCompletedPayload snapshot frame)
    else none
  | _ => none

/-! ## Frames that fit -/

/-- A kind of frame that ends a call. -/
def endsCall : FrameKind → Bool
  | .completed | .failed | .canceled | .expired => true
  | _ => false

/-- The kind of frame that the client expects at the end of a call with the status. -/
def endsAs : Status → FrameKind → Bool
  | .completed, kind => kind == .completed
  | .failed, kind => kind == .failed
  | .canceled, kind => kind == .canceled
  | .expired, kind => kind == .expired
  | _, _ => false

/-- The frame fits its snapshot: the last frame of an ended call has the kind of its status, no
frame of another call has a kind that ends a call, and the sequence can still be incremented. -/
def Fits (snapshot : Snapshot) (frame : Frame) : Bool :=
  snapshot.sequence != maxUint64 &&
    if snapshot.status.terminal then frame.sequence != snapshot.sequence ||
      endsAs snapshot.status frame.kind
    else !endsCall frame.kind

/-- The frames of a call fit at every instant, and their events fit the budgets. -/
def Conforms (w : Wire) (h : History) : Prop := ∀ n, ∀ frame ∈ (h.at_ n).frames,
  Fits (h.at_ n) frame = true ∧ w.carries (w.rendered (h.at_ n) frame) = true

variable {w : Wire} {snapshot : Snapshot} {frame : Frame} {frames : List Frame} {h : History}

/-- The client's comparison of the retention floor fails at the last sequence only. -/
theorem frameFloor_gt_iff (h : SnapshotOk snapshot) :
    snapshot.frameFloor > snapshot.sequence + 1 ↔ snapshot.sequence = maxUint64 := by
  have hwindow := h.window
  have hfloor := h.floor
  constructor
  · intro hgt
    by_contra hne
    have hlt : (snapshot.sequence + 1).toNat < snapshot.frameFloor.toNat :=
      UInt64.lt_iff_toNat_lt.mp hgt
    rw [toNat_succ hne] at hlt
    omega
  · intro hmax
    rw [hmax]
    exact UInt64.lt_iff_toNat_lt.mpr hfloor

variable {status : Status} {kind : FrameKind} {callID : CallID} {m : Nat}

theorem continuationStatusTerminal_proto (h : status.valid = true) :
    continuationStatusTerminal (continuationProtoStatus status) = some status.terminal := by
  cases status with
  | other => cases h
  | _ => rfl

theorem continuationProtoFrameKind_ne (h : kind.valid = true) :
    continuationProtoFrameKind kind ≠ .unspecified := by
  cases kind with
  | other => cases h
  | _ => exact nofun

theorem continuationFrameKindTerminal_proto (kind : FrameKind) :
    continuationFrameKindTerminal (continuationProtoFrameKind kind) = endsCall kind := by
  cases kind <;> rfl

theorem continuationTerminalFrameMatches_proto
    (hpayload : frame.payload.length ≤ maxPayloadBytes)
    (hlast : frame.sequence = snapshot.sequence) :
    continuationTerminalFrameMatches (continuationProtoSnapshot snapshot)
      (continuationProtoFrame frame) = endsAs snapshot.status frame.kind := by
  have hsize : ¬ maxContinuationPayloadBytes < frame.payload.length := not_lt.mpr hpayload
  simp only [continuationTerminalFrameMatches, continuationProtoSnapshot, continuationProtoFrame,
    hlast, bne_self_eq_false, hsize]
  cases snapshot.status <;> cases frame.kind <;> rfl

theorem validateContinuationSnapshot_proto (h : SnapshotOk snapshot)
    (hf : frame ∈ snapshot.frames) :
    validateContinuationSnapshot (some (continuationProtoSnapshot snapshot)) snapshot.callID =
      if snapshot.sequence = maxUint64 then none else some snapshot.operation := by
  have hsequence : snapshot.sequence ≠ 0 := by
    have hle := h.sequence_le hf
    intro hzero
    rw [hzero, UInt64.toNat_zero] at hle
    omega
  have hfloor : snapshot.frameFloor ≠ 0 := by
    have hpos := h.floor
    intro hzero
    rw [hzero, UInt64.toNat_zero] at hpos
    omega
  simp [validateContinuationSnapshot, continuationProtoSnapshot, beq_eq_false_iff_ne.mpr h.revision,
    beq_eq_false_iff_ne.mpr hsequence, beq_eq_false_iff_ne.mpr hfloor,
    frameFloor_gt_iff h, h.callID, h.operation, continuationStatusTerminal_proto h.status]

/-- **What `Recv` does with an event of the server**: it accepts the frames that fit. -/
theorem recv_frameMessage (h : SnapshotOk snapshot)
    (hf : frame ∈ snapshot.frames) (stream : ClientStream) (hid : stream.callID = snapshot.callID)
    (hoperation : stream.operation = "" ∨ stream.operation = snapshot.operation)
    (hnext : frame.sequence = stream.after + 1) :
    stream.recv (frameMessage w snapshot frame) =
      if Fits snapshot frame then .ok ⟨stream.callID, snapshot.operation, frame.sequence⟩
      else .error .invalidProtocol := by
  obtain ⟨hkind, hpayload⟩ := validFrames_mem h.frames hf
  have hsize : ¬ maxContinuationPayloadBytes < frame.payload.length := not_lt.mpr hpayload
  have hle : ¬ snapshot.sequence < frame.sequence :=
    UInt64.not_lt.mpr (UInt64.le_iff_toNat_le.mpr (h.sequence_le hf).2)
  have hchanged : (stream.operation != "" && stream.operation != snapshot.operation) = false := by
    rcases hoperation with heq | heq <;> simp [heq]
  have hmatch : (frame.sequence == snapshot.sequence && snapshot.status.terminal &&
      !continuationTerminalFrameMatches (continuationProtoSnapshot snapshot)
        (continuationProtoFrame frame)) =
        (snapshot.status.terminal && !(frame.sequence != snapshot.sequence ||
          endsAs snapshot.status frame.kind)) := by
    by_cases hlast : frame.sequence = snapshot.sequence
    · rw [continuationTerminalFrameMatches_proto hpayload hlast]
      simp [hlast]
    · simp [bne, beq_eq_false_iff_ne.mpr hlast]
  have hheader : (continuationEvent != continuationEvent || frame.sequence != stream.after + 1 ||
      formatUint frame.sequence != formatUint frame.sequence ||
      continuationProtoFrameKind frame.kind == .unspecified ||
      decide (frame.payload.length > maxContinuationPayloadBytes) ||
      frame.sequence + 1 != frame.sequence + 1) = false := by
    simp [← hnext, continuationProtoFrameKind_ne hkind, hsize]
  have hvalidate := validateContinuationSnapshot_proto h hf
  rw [← hid] at hvalidate
  simp only [ClientStream.recv, frameMessage, continuationProtoFrame, hheader, hvalidate]
  by_cases hmax : snapshot.sequence = maxUint64
  · simp [hmax, Fits]
  · simp only [if_neg hmax]
    simp only [continuationProtoFrame, continuationProtoSnapshot] at hmatch
    simp only [continuationProtoSnapshot, hle, bne_self_eq_false, hchanged, hmatch,
      continuationFrameKindTerminal_proto, Fits, bne_iff_ne.mpr hmax]
    generalize (frame.sequence != snapshot.sequence || endsAs snapshot.status frame.kind) = last
    generalize endsCall frame.kind = ends
    cases snapshot.status.terminal <;> cases last <;> cases ends <;> rfl

/-! ## What the server sends -/

/-- The frames that fit are received one after the other. -/
theorem receive_frames (h : SnapshotOk snapshot) (stream : ClientStream)
    (hid : stream.callID = snapshot.callID)
    (hoperation : stream.operation = "" ∨ stream.operation = snapshot.operation)
    (hnext : contiguous (stream.after + 1) frames = true)
    (hfits : ∀ frame ∈ frames, frame ∈ snapshot.frames ∧ Fits snapshot frame = true ∧
      w.carries (w.rendered snapshot frame) = true) :
    ∃ operation, (operation = "" ∨ operation = snapshot.operation) ∧
      receive w stream (frames.map (frameMessage w snapshot)) =
        .ok ⟨stream.callID, operation, stream.after + UInt64.ofNat frames.length⟩ := by
  induction frames generalizing stream with
  | nil => exact ⟨stream.operation, hoperation, by simp [receive]⟩
  | cons frame frames ih =>
    simp only [contiguous, Bool.and_eq_true, beq_iff_eq] at hnext
    obtain ⟨hmem, hfit, hcarries⟩ := hfits frame List.mem_cons_self
    have hrecv := recv_frameMessage (w := w) h hmem stream hid hoperation hnext.1
    have hlarge : (!w.carries (frameMessage w snapshot frame).bytes) = false :=
      congrArg (!·) hcarries
    rw [if_pos hfit] at hrecv
    obtain ⟨operation, hop, hreceive⟩ :=
      ih ⟨stream.callID, snapshot.operation, frame.sequence⟩ hid (.inr rfl)
      (by rw [hnext.1]; exact hnext.2) fun f hf => hfits f (List.mem_cons_of_mem _ hf)
    refine ⟨operation, hop, ?_⟩
    rw [List.map_cons, receive, hlarge, hrecv, hnext.1]
    rw [hnext.1, UInt64.add_assoc] at hreceive
    simpa [UInt64.add_comm 1] using hreceive

theorem receive_append {stream stream' : ClientStream} {left right : List Message}
    (h : receive w stream left = .ok stream') : receive w stream (left ++ right) =
    receive w stream' right := by
  induction left generalizing stream with
  | nil => rw [← Except.ok.inj h]; rfl
  | cons message messages ih =>
    simp only [List.cons_append, receive, bind, Except.bind] at h ⊢
    split at h
    · cases h
    split at h
    · cases h
    next hlarge _ _ _ =>
      rw [if_neg hlarge]
      exact ih h

theorem contiguous_append {expected : UInt64} {rest : List Frame}
    (h : contiguous expected (frames ++ rest) = true) : contiguous expected frames = true := by
  induction frames generalizing expected with
  | nil => rfl
  | cons frame frames ih =>
    simp only [List.cons_append, contiguous, Bool.and_eq_true] at h ⊢
    exact ⟨h.1, ih h.2⟩

theorem sendEvents_prefix (poll : Poll) (snapshot : Snapshot) (after : UInt64)
    (frames : List Frame) : (sendEvents poll snapshot after frames).1 <+: frames := by
  induction frames generalizing after with
  | nil => exact List.prefix_rfl
  | cons frame frames ih =>
    simp only [sendEvents]
    split
    · exact List.nil_prefix
    split
    · exact List.nil_prefix
    · exact List.prefix_cons_inj frame |>.mpr (ih _)

variable {pageSize : Int}

variable {after : UInt64}

/-- One iteration of the server: the page of a call, of which it sends the first frames; all of them
if it goes on. -/
theorem pumpedFrames_step {poll : Poll} {polls : List Poll} :
    pumpedFrames callID pageSize after (poll :: polls) = [] ∨
      ∃ snapshot a, poll.loaded = .ok snapshot ∧ Page snapshot after pageSize a ∧
        contiguous (after + 1) a.frames = true ∧
        ((∃ frames, frames <+: a.frames ∧
            pumpedFrames callID pageSize after (poll :: polls) = frames.map (snapshot, ·)) ∨
          pumpedFrames callID pageSize after (poll :: polls) = a.frames.map (snapshot, ·) ++
            pumpedFrames callID pageSize (after + UInt64.ofNat a.frames.length) polls) := by
  simp only [pumpedFrames]
  split
  · exact .inl rfl
  rename_i a ha
  obtain ⟨snapshot, hloaded, hpage⟩ := attach_ok ha
  split
  · exact .inl rfl
  rename_i hvalid
  have hcontiguous : contiguous (after + 1) a.frames = true := by
    simp only [validateContinuationAttachment, Bool.not_eq_true', Bool.and_eq_true,
      Bool.not_eq_false] at hvalid
    exact hvalid.1.2
  refine .inr ⟨snapshot, a, hloaded, hpage, hcontiguous, ?_⟩
  rw [hpage.source]
  split
  · exact .inl ⟨_, sendEvents_prefix .., rfl⟩
  rename_i hnone
  obtain ⟨hsent, hcursor⟩ := sendEvents_none hcontiguous hnone
  rw [hsent, hcursor]
  split
  · exact .inl ⟨_, List.prefix_rfl, rfl⟩
  split
  · exact .inr rfl
  split
  · exact .inl ⟨_, List.prefix_rfl, rfl⟩
  · exact .inr rfl

/-- The frames of a page are frames of its call. -/
theorem Page.mem_frames {limit : Int} {a : Attachment}
    (h : Continuation.Page snapshot after limit a) (hf : frame ∈ a.frames) :
    frame ∈ snapshot.frames := by
  rw [h.frames] at hf
  exact List.mem_of_mem_filter (List.mem_of_mem_take hf)

/-- Every frame is sent with the call as it was at some instant. -/
theorem pumpedFrames_mem {polls : List Poll} (hon : OnHistory h m polls)
    (hmem : (snapshot, frame) ∈ pumpedFrames callID pageSize after polls) :
    ∃ n, snapshot = h.at_ n ∧ frame ∈ snapshot.frames := by
  induction polls generalizing m after with
  | nil => cases hmem
  | cons poll polls ih =>
    obtain ⟨n, -, hload, hrest⟩ := hon
    rcases @pumpedFrames_step callID pageSize after poll polls with
      hnone | ⟨s, a, hs, hpage, -, ⟨frames, hstart, hsent⟩ | hsent⟩
    · rw [hnone] at hmem
      cases hmem
    · rw [hsent] at hmem
      obtain ⟨f, hf, hpair⟩ := List.mem_map.mp hmem
      obtain ⟨rfl, rfl⟩ := Prod.mk.inj hpair
      exact ⟨n, hload _ hs, Page.mem_frames hpage (hstart.subset hf)⟩
    · rw [hsent] at hmem
      rcases List.mem_append.mp hmem with hmem | hmem
      · obtain ⟨f, hf, hpair⟩ := List.mem_map.mp hmem
        obtain ⟨rfl, rfl⟩ := Prod.mk.inj hpair
        exact ⟨n, hload _ hs, Page.mem_frames hpage hf⟩
      · exact ih hrest hmem

/-- The frames alone are those of `pumpContinuationEvents`. -/
theorem pumpedFrames_snd (callID : CallID) (pageSize : Int) (after : UInt64) (polls : List Poll) :
    (pumpedFrames callID pageSize after polls).map Prod.snd =
      (pumpContinuationEvents callID pageSize after polls).sent := by
  induction polls generalizing after with
  | nil => rfl
  | cons poll polls ih =>
    have hmap : ∀ (s : Snapshot) (frames : List Frame),
        (frames.map fun frame => (s, frame)).map Prod.snd = frames := by simp
    rw [pumpedFrames, pumpContinuationEvents]
    cases attach poll.loaded callID after pageSize with
    | error => rfl
    | ok a =>
      dsimp only
      by_cases hvalid : (!validateContinuationAttachment a after pageSize) = true
      · rw [if_pos hvalid, if_pos hvalid]
        rfl
      rw [if_neg hvalid, if_neg hvalid]
      cases (sendEvents poll a.snapshot after a.frames).2.2 with
      | some => exact hmap _ _
      | none =>
        dsimp only
        split
        · exact hmap _ _
        split
        · rw [List.map_append, hmap, ih]
          rfl
        split
        · exact hmap _ _
        · rw [List.map_append, hmap, ih]
          rfl

/-! ## Client and server -/

/-- What `Call` returns for an ended call: the payload of its last frame if it has completed. -/
def terminalOutcome (snapshot : Snapshot) : Except ClientError (List UInt8) :=
  if snapshot.status = .completed then .ok ((snapshot.frames.getLast?.map Frame.payload).getD [])
  else .error (.terminal (continuationProtoStatus snapshot.status))

/-- A commit keeps the identity of a call. -/
theorem identity_at (h : History) (n : Nat) :
    (h.at_ n).callID = (h.at_ 0).callID ∧ (h.at_ n).operation = (h.at_ 0).operation := by
  induction n with
  | zero => exact ⟨rfl, rfl⟩
  | succ n ih =>
    rcases h.step n with heq | ⟨t, ht⟩
    · rw [heq]
      exact ih
    · obtain ⟨-, -, ⟨-, heq⟩ | ⟨-, -, heq⟩⟩ := apply_ok_iff.mp ht
      · rw [heq]
        exact ih
      · rw [heq]
        exact ih

/-- The client accepts what the server sends, if the frames of the call fit. -/
theorem receive_pumped (hconforms : Conforms w h) {polls : List Poll}
    (stream : ClientStream) (hid : stream.callID = (h.at_ 0).callID)
    (hoperation : stream.operation = "" ∨ stream.operation = (h.at_ 0).operation)
    (hon : OnHistory h m polls) :
    ∃ stream', receive w stream (pumpedMessages w (h.at_ 0).callID pageSize stream.after polls) =
      .ok stream' := by
  induction polls generalizing m stream with
  | nil => exact ⟨stream, rfl⟩
  | cons poll polls ih =>
    obtain ⟨n, -, hload, hrest⟩ := hon
    rcases @pumpedFrames_step (h.at_ 0).callID pageSize stream.after poll polls with
      hnone | ⟨s, a, hs, hpage, hcontiguous, hsent⟩
    · exact ⟨stream, by rw [pumpedMessages, hnone]; rfl⟩
    obtain rfl := hload s hs
    have hidentity := identity_at h n
    have hpairs : ∀ frames : List Frame, (frames.map (h.at_ n, ·)).map (fun (snapshot, frame) =>
      frameMessage w snapshot frame) =
        frames.map (frameMessage w (h.at_ n)) := by simp
    have hreceive : ∀ frames, frames <+: a.frames → ∃ operation,
        (operation = "" ∨ operation = (h.at_ 0).operation) ∧
          receive w stream (frames.map (frameMessage w (h.at_ n))) =
            .ok ⟨stream.callID, operation, stream.after + UInt64.ofNat frames.length⟩ := by
      intro frames hstart
      rw [← hidentity.2]
      refine receive_frames hpage.valid stream (hid.trans hidentity.1.symm)
        (by rw [hidentity.2]; exact hoperation) ?_ ?_
      · obtain ⟨rest, hrest'⟩ := hstart
        rw [← hrest'] at hcontiguous
        exact contiguous_append hcontiguous
      · intro frame hf
        have hmem := Page.mem_frames hpage (hstart.subset hf)
        exact ⟨hmem, hconforms n frame hmem⟩
    rcases hsent with ⟨frames, hstart, hsent⟩ | hsent
    · obtain ⟨operation, -, hok⟩ := hreceive frames hstart
      exact ⟨_, by rw [pumpedMessages, hsent, hpairs]; exact hok⟩
    · obtain ⟨operation, hop, hok⟩ := hreceive a.frames List.prefix_rfl
      obtain ⟨stream', hstream'⟩ :=
        ih ⟨stream.callID, operation, stream.after + UInt64.ofNat a.frames.length⟩
        hid hop hrest
      refine ⟨stream', ?_⟩
      rw [pumpedMessages, hsent, List.map_append, hpairs, receive_append hok]
      exact hstream'

/-- The predecessor of a retained frame, and the floor. -/
theorem pred_sequence (h : SnapshotOk snapshot) (hf : frame ∈ snapshot.frames) :
    (frame.sequence - 1).toNat + 1 = frame.sequence.toNat ∧
      frame.sequence.toNat ≤ snapshot.sequence.toNat ∧
      snapshot.frameFloor.toNat ≤ frame.sequence.toNat := by
  have hle := h.sequence_le hf
  have hone : (1 : UInt64) ≤ frame.sequence := UInt64.le_iff_toNat_le.mpr hle.1
  have hfloor := UInt64.le_iff_toNat_le.mp (h.floor_le hf)
  rw [UInt64.toNat_sub_of_le _ _ hone, UInt64.toNat_one]
  omega

/-- A retained frame is the first frame after its predecessor. -/
theorem framesAfter_pred (h : SnapshotOk snapshot) (hf : frame ∈ snapshot.frames) :
    (framesAfter snapshot (frame.sequence - 1).toNat).take 1 = [frame] := by
  obtain ⟨hpred, hle, hfloor⟩ := pred_sequence h hf
  have hvalid : validFrames (frame.sequence - 1 + 1)
    (framesAfter snapshot (frame.sequence - 1).toNat) = true :=
    validFrames_framesAfter h (by omega) (UInt64.le_iff_toNat_le.mpr (by omega))
  have hmem : frame ∈ framesAfter snapshot (frame.sequence - 1).toNat :=
    List.mem_filter.mpr ⟨hf, decide_eq_true (by omega)⟩
  cases hafter : framesAfter snapshot (frame.sequence - 1).toNat with
  | nil => rw [hafter] at hmem; cases hmem
  | cons first rest =>
    rw [hafter] at hvalid
    simp only [validFrames, Bool.and_eq_true, beq_iff_eq, UInt64.sub_add_cancel] at hvalid
    have hfirst : first ∈ snapshot.frames :=
      List.mem_of_mem_filter (hafter ▸ List.mem_cons_self : first ∈ framesAfter snapshot _)
    have hnodup : (snapshot.frames.map fun frame => frame.sequence.toNat).Nodup :=
      h.sequences ▸ List.nodup_range'
    obtain rfl := List.inj_on_of_nodup_map hnodup hfirst hf (by rw [hvalid.1.1.1.1])
    rfl

/-- One poll of a call, with pages of one frame, sends a retained frame. -/
theorem pumpedMessages_one (h : SnapshotOk snapshot) (hf : frame ∈ snapshot.frames) :
    pumpedMessages w snapshot.callID 1 (frame.sequence - 1) [{ loaded := .ok snapshot }] =
      [frameMessage w snapshot frame] := by
  obtain ⟨hpred, hle, hfloor⟩ := pred_sequence h hf
  have hcursor : frame.sequence - 1 ≤ snapshot.sequence := UInt64.le_iff_toNat_le.mpr (by omega)
  obtain ⟨a, ha⟩ := exists_attach h h.callID (frame.sequence - 1) 1 (by decide) hcursor (by omega)
  obtain ⟨s, hs, hpage⟩ := attach_ok ha
  cases hs
  have hframes : a.frames = [frame] := by
    rw [hpage.frames]
    exact framesAfter_pred h hf
  have hvalid : validateContinuationAttachment a (frame.sequence - 1) 1 = true := by
    simp [validateContinuationAttachment, hframes, contiguous, hpage.source,
      UInt64.not_lt.mpr hcursor]
  have hsent : pumpedFrames snapshot.callID 1 (frame.sequence - 1) [{ loaded := .ok snapshot }] =
      [(snapshot, frame)] := by
    simp [pumpedFrames, ha, hvalid, hpage.source, hframes, sendEvents]
  rw [pumpedMessages, hsent]
  rfl

theorem Fits.ends (h : Fits snapshot frame = true)
    (hterminal : snapshot.status.terminal = true) (hlast : frame.sequence = snapshot.sequence) :
    endsAs snapshot.status frame.kind = true := by
  simp only [Fits, hterminal, hlast, bne_self_eq_false, Bool.and_eq_true] at h
  exact h.2

theorem Fits.goes_on (h : Fits snapshot frame = true)
    (hlive : snapshot.status.terminal = false) : endsCall frame.kind = false := by
  simp only [Fits, hlive, Bool.false_eq_true, if_false, Bool.and_eq_true, Bool.not_eq_true'] at h
  exact h.2

theorem endsCall_of_endsAs (h : endsAs status kind = true) : endsCall kind = true := by
  cases status <;> simp_all [endsAs] <;> rfl

/-- `Call` returns on the last frame of an ended call. -/
theorem callOn_frameMessage (hlast : snapshot.frames.getLast? = some frame)
    (hpayload : frame.payload.length ≤ maxPayloadBytes)
    (hsequence : frame.sequence = snapshot.sequence)
    (hterminal : snapshot.status.terminal = true)
    (hends : endsAs snapshot.status frame.kind = true) :
    callOn snapshot.operation (frameMessage w snapshot frame) =
      some (terminalOutcome snapshot) := by
  have hmatches := continuationTerminalFrameMatches_proto hpayload hsequence
  rw [hends] at hmatches
  have hcompleted : continuationProtoStatus snapshot.status = .completed ↔
      snapshot.status = .completed := by
    cases snapshot.status <;> simp [continuationProtoStatus]
  have hcall : callOn snapshot.operation (frameMessage w snapshot frame) =
      some (continuationCompletedPayload (continuationProtoSnapshot snapshot)
        (continuationProtoFrame frame)) := by
    simp [callOn, frameMessage, continuationProtoSnapshot, continuationProtoFrame,
      hterminal, hsequence]
  rw [hcall, continuationCompletedPayload, hmatches, terminalOutcome, hlast]
  by_cases hstatus : snapshot.status = .completed
  · simp [continuationProtoSnapshot, hstatus, continuationProtoStatus, continuationProtoFrame]
  · have hne := mt hcompleted.mp hstatus
    simp [continuationProtoSnapshot, hstatus, hne]

/-- The last frame of an ended call is sent with the ended call, and `Call` returns on it. -/
theorem callOn_last (hconforms : Conforms w h) {polls : List Poll}
    (hon : OnHistory h 0 polls) (hfloor : (h.at_ 0).frameFloor.toNat ≤ after.toNat + 1)
    (hended : (pumpContinuationEvents (h.at_ 0).callID pageSize after polls).ending = .ended)
    {n : Nat} (hterminal : (h.at_ n).status.terminal = true) (hafter : after < (h.at_ n).sequence) :
    ∃ message ∈ pumpedMessages w (h.at_ 0).callID pageSize after polls,
      callOn (h.at_ n).operation message = some (terminalOutcome (h.at_ n)) := by
  obtain ⟨k, -, hk, hsent⟩ := pump_run hon hended
  obtain hsame : h.at_ k = h.at_ n := ended_unique h hk hterminal
  rw [hsame] at hsent
  have hvalid := h.valid_at n
  have hwindow := hvalid.window
  have hlt := UInt64.lt_iff_toNat_lt.mp hafter
  have hext := h.extends_of_le (Nat.zero_le n)
  rw [← hext.floor] at hfloor
  -- the last frame of the call
  obtain ⟨last, hlast⟩ : ∃ last, (h.at_ n).frames.getLast? = some last := by
    cases hget : (h.at_ n).frames.getLast? with
    | none =>
      rw [List.getLast?_eq_none_iff.mp hget, List.length_nil] at hwindow
      omega
    | some last => exact ⟨last, rfl⟩
  have hmem : last ∈ (h.at_ n).frames := List.mem_of_getLast? hlast
  have hsequence := hvalid.last_sequence hlast
  have hpumped : last ∈ (pumpedFrames (h.at_ 0).callID pageSize after polls).map Prod.snd := by
    rw [pumpedFrames_snd, hsent]
    exact List.mem_filter.mpr ⟨hmem, decide_eq_true (by rw [hsequence]; exact hlt)⟩
  obtain ⟨⟨snapshot, frame⟩, hpair, rfl⟩ := List.mem_map.mp hpumped
  obtain ⟨i, rfl, hframe⟩ := pumpedFrames_mem hon hpair
  refine ⟨frameMessage w (h.at_ i) frame, List.mem_map.mpr ⟨_, hpair, rfl⟩, ?_⟩
  -- it fits the ended call, so it does not fit a call that goes on
  have hends := Fits.ends (hconforms n frame hmem).1 hterminal hsequence
  have hi : (h.at_ i).status.terminal = true := by
    by_contra hlive
    have hgoes := Fits.goes_on (hconforms i frame hframe).1 (by simpa using hlive)
    rw [endsCall_of_endsAs hends] at hgoes
    cases hgoes
  rw [ended_unique h hi hterminal]
  exact callOn_frameMessage hlast (validFrames_mem hvalid.frames hmem).2 hsequence hterminal hends

/-- **When the client follows every history of a call.** It accepts every event that the server
sends from any cursor, however commits and polls interleave, and has received an event on which
`Call` returns when the server ends the stream of an ended call, if and only if the frames of the
call and their events fit at every instant. -/
theorem client_follows_iff (w : Wire) (h : History) :
    (∀ (pageSize : Int) (after : UInt64) (polls : List Poll), OnHistory h 0 polls →
      (h.at_ 0).frameFloor.toNat ≤ after.toNat + 1 →
      (∃ stream, receive w (.attach (h.at_ 0).callID after)
        (pumpedMessages w (h.at_ 0).callID pageSize after polls) = .ok stream) ∧
      ((pumpContinuationEvents (h.at_ 0).callID pageSize after polls).ending = .ended →
        ∀ n, (h.at_ n).status.terminal = true → after < (h.at_ n).sequence →
          ∃ message ∈ pumpedMessages w (h.at_ 0).callID pageSize after polls,
            callOn (h.at_ n).operation message = some (terminalOutcome (h.at_ n)))) ↔
    Conforms w h := by
  constructor
  · intro hall n frame hf
    have hvalid := h.valid_at n
    obtain ⟨hpred, -, hfloor⟩ := pred_sequence hvalid hf
    rw [(h.extends_of_le (Nat.zero_le n)).floor] at hfloor
    have hon : OnHistory h 0 [{ loaded := .ok (h.at_ n) }] :=
      ⟨n, Nat.zero_le n, fun s hs => (Except.ok.inj hs).symm, trivial⟩
    obtain ⟨⟨stream, hreceive⟩, -⟩ := hall 1 (frame.sequence - 1) _ hon (by omega)
    have hidentity := (identity_at h n).1
    rw [← hidentity, pumpedMessages_one hvalid hf] at hreceive
    have hrecv := recv_frameMessage (w := w) hvalid hf
      (.attach (h.at_ n).callID (frame.sequence - 1)) rfl
      (.inl rfl) (UInt64.sub_add_cancel _ _).symm
    rw [receive] at hreceive
    split at hreceive
    · cases hreceive
    next hcarries =>
      rw [Bool.not_eq_true', Bool.not_eq_false] at hcarries
      refine ⟨?_, hcarries⟩
      by_contra hfits
      rw [if_neg hfits] at hrecv
      rw [hrecv] at hreceive
      cases hreceive
  · intro hconforms pageSize after polls hon hfloor
    refine ⟨receive_pumped hconforms (.attach (h.at_ 0).callID after) rfl (.inl rfl) hon, ?_⟩
    intro hended n hterminal hafter
    exact callOn_last hconforms hon hfloor hended hterminal hafter

/-- A running call that has a frame of a completed one. -/
def strayCall : Snapshot :=
  { openCall with revision := 3, sequence := 1, frames := [⟨1, .completed, [8]⟩] }

/-- The call goes on with a frame of a completed one. -/
def straying : History where
  at_ n := if n = 0 then openCall else strayCall
  valid := validateSnapshot_ok_iff.mp rfl
  step n := by
    cases n with
    | zero => exact .inr ⟨continue_ [⟨0, .completed, [8]⟩], rfl⟩
    | succ n => exact .inl rfl

/-- The events below, without the blanks that `protojson` may add, under the default budgets. -/
def small : Wire where
  rendered snapshot frame :=
    if !snapshot.status.terminal then 299 else if frame.kind = .completed then 333 else 329
  eventBytes := 1024 * 1024
  eventSize := 1024 * 1024

/-- The server sends the frame, and the client rejects it. -/
theorem client_rejects_stray_frame : OnHistory straying 0 [{ loaded := .ok strayCall }] ∧
    pumpedMessages small "c" 1 0 [{ loaded := .ok strayCall }] =
      [frameMessage small strayCall ⟨1, .completed, [8]⟩] ∧
    receive small (.attach "c" 0) (pumpedMessages small "c" 1 0 [{ loaded := .ok strayCall }]) =
      .error .invalidProtocol :=
  ⟨⟨1, by decide, fun _ hs => (Except.ok.inj hs).symm, trivial⟩, rfl, rfl⟩

/-! ## Machines -/

/-- What a transition has to bring: the frame that ends the call, last, or none that does. -/
def TransitionFits (t : Transition) : Prop :=
  if t.status.terminal then ∃ last, t.frames.getLast? = some last ∧ endsAs t.status last.kind = true
  else ∀ frame ∈ t.frames, endsCall frame.kind = false

theorem numbered_mem {sequence : UInt64} (h : frame ∈ numbered sequence frames) :
    ∃ f ∈ frames, f.kind = frame.kind := by
  induction frames generalizing sequence with
  | nil => cases h
  | cons f frames ih =>
    rcases List.mem_cons.mp h with rfl | h
    · exact ⟨f, List.mem_cons_self, rfl⟩
    · obtain ⟨g, hg, hkind⟩ := ih h
      exact ⟨g, List.mem_cons_of_mem _ hg, hkind⟩

theorem numbered_getLast? (sequence : UInt64) {last : Frame} (h : frames.getLast? = some last) :
    ∃ n, (numbered sequence frames).getLast? = some { last with sequence := n } := by
  induction frames generalizing sequence with
  | nil => cases h
  | cons f frames ih =>
    cases frames with
    | nil =>
      cases h
      exact ⟨sequence, rfl⟩
    | cons g rest =>
      obtain ⟨n, hn⟩ := ih (sequence + 1) h
      exact ⟨n, by exact hn⟩

/-- A transition that fits keeps the frames of a call fitting. -/
theorem fits_apply {s s' : Snapshot} {t : Transition} (h : ∀ frame ∈ s.frames, Fits s frame = true)
    (happly : apply s t = .ok s') (hfits : TransitionFits t) (hmax : s'.sequence ≠ maxUint64) :
    ∀ frame ∈ s'.frames, Fits s' frame = true := by
  have hvalid := apply_valid happly
  obtain ⟨hs, -, ⟨-, rfl⟩ | ⟨-, hadvances, rfl⟩⟩ := apply_ok_iff.mp happly
  · exact h
  have hold : ∀ frame ∈ s.frames, endsCall frame.kind = false :=
    fun frame hf => Fits.goes_on (h frame hf) hadvances.live
  intro frame hf
  unfold TransitionFits at hfits
  have hstatus : (advanced s t).status = t.status := rfl
  by_cases hterminal : t.status.terminal = true
  · rw [if_pos hterminal] at hfits
    obtain ⟨last, hlast, hends⟩ := hfits
    simp only [Fits, bne_iff_ne.mpr hmax, Bool.true_and, hstatus, hterminal, if_true,
      Bool.or_eq_true, bne_iff_ne]
    by_cases hseq : frame.sequence = (advanced s t).sequence
    · -- it is the last frame, which the transition has brought
      obtain ⟨n, hn⟩ := numbered_getLast? (s.sequence + 1) hlast
      have hgetLast : (advanced s t).frames.getLast? = some { last with sequence := n } := by
        show (s.frames ++ numbered (s.sequence + 1) t.frames).getLast? = _
        rw [List.getLast?_append, hn]
        rfl
      have hnodup : ((advanced s t).frames.map fun frame => frame.sequence.toNat).Nodup :=
        hvalid.sequences ▸ List.nodup_range'
      obtain rfl := List.inj_on_of_nodup_map hnodup hf (List.mem_of_getLast? hgetLast)
        (by rw [hseq, hvalid.last_sequence hgetLast])
      exact .inr hends
    · exact .inl hseq
  · rw [if_neg hterminal] at hfits
    have hlive : t.status.terminal = false := by simpa using hterminal
    have hends : endsCall frame.kind = false := by
      rcases List.mem_append.mp (show frame ∈ s.frames ++
        numbered (s.sequence + 1) t.frames from hf) with hf | hf
      · exact hold frame hf
      · obtain ⟨f, hmem, hkind⟩ := numbered_mem hf
        rw [← hkind]
        exact hfits f hmem
    simp [Fits, hmax, hstatus, hlive, hends]

section Fitting

variable (h0 : ∀ frame ∈ (h.at_ 0).frames, Fits (h.at_ 0) frame = true)
  (hsteps : ∀ n, h.at_ (n + 1) = h.at_ n ∨ ∃ t, TransitionFits t ∧
    apply (h.at_ n) t = .ok (h.at_ (n + 1))) (hmax : ∀ n, (h.at_ n).sequence ≠ maxUint64)
  (hcarries : ∀ n, ∀ frame ∈ (h.at_ n).frames, w.carries (w.rendered (h.at_ n) frame) = true)

include h0 hsteps hmax hcarries

/-- A machine whose transitions fit conforms, if its events are not too large. -/
theorem conforms_of_transitions : Conforms w h := by
  suffices hfits : ∀ n, ∀ frame ∈ (h.at_ n).frames, Fits (h.at_ n) frame = true from
    fun n frame hf => ⟨hfits n frame hf, hcarries n frame hf⟩
  intro n
  induction n with
  | zero => exact h0
  | succ n ih =>
    rcases hsteps n with heq | ⟨t, hfits, happly⟩
    · rw [heq]
      exact ih
    · exact fits_apply ih happly hfits (hmax (n + 1))

/-- **A machine whose transitions fit is followed**: the client accepts all that the server sends,
however commits and polls interleave, as long as no event is too large. -/
theorem client_follows_transitions (pageSize : Int) (after : UInt64) {polls : List Poll}
    (hon : OnHistory h 0 polls) :
    ∃ stream, receive w (.attach (h.at_ 0).callID after)
      (pumpedMessages w (h.at_ 0).callID pageSize after polls) = .ok stream :=
  receive_pumped (conforms_of_transitions h0 hsteps hmax hcarries) _ rfl (.inl rfl) hon

end Fitting

theorem client_follows_completing :
    ∃ stream, receive small (.attach "c" 0) (pumpedMessages small "c" 2 0 endedPolls) =
      .ok stream := by
  refine client_follows_transitions (by decide) (fun n => ?_) (fun n => ?_) (fun n =>
    ?_) 2 0 endedPolls_onHistory
  · cases n with
    | zero => exact .inr ⟨move .completed 1 [⟨0, .event, [7]⟩, ⟨0, .completed, [8]⟩],
        ⟨_, rfl, rfl⟩, rfl⟩
    | succ n => exact .inl rfl
  · cases n <;> exact ne_of_beq_false rfl
  · cases n with
    | zero => decide
    | succ n =>
      exact show ∀ frame ∈ endedCall.frames, small.carries (small.rendered endedCall frame) =
      true by decide

end Keelith.Transport

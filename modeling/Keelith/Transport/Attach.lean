import Keelith.Continuation.Attach

/-!
# Following a call over gRPC and HTTP

`Server.Attach` (`transport/grpc/continuation/server.go`) and `pumpContinuationEvents`
(`transport/http/continuation/continuation.go`) read pages of a call until the call has ended.

A `Poll` is what the environment gives one iteration: the result of authorizing and loading the
call, which messages exceed the response budget (`proto.Size`), which sends succeed, and whether the
context ends during the wait. A loop runs on a list of polls; it is `pending` if it would take
another one. An encoded message carries the snapshot and the frames that it encodes.

* `Outcome`: the frames that a loop sent and how it ended; `ended` is the normal end of the stream.
* `framesAfter_split`: a page is the start of what the final call has after the cursor.
-/

namespace Keelith.Transport

open Continuation

/-! ## Messages -/

/-- `continuationv1.Page`. -/
structure WirePage where
  snapshot : Snapshot
  frames : List Frame
  nextSequence : UInt64
  frameFloor : UInt64
  terminal : Bool

def maxWirePayloadBytes : Nat := 1024 * 1024

def maxWirePageFrames : Int := 1000

def maxWireWorkflowNodes : Nat := 10000

/-- `workflowToWire` succeeds. -/
def workflowToWire (workflow : WorkflowSnapshotState) : Bool :=
  workflow.version != "" && workflow.fingerprint != "" && !workflow.startedAt.isZero &&
    workflow.nodes.size != 0 && workflow.nodes.size ≤ maxWireWorkflowNodes &&
    workflow.nodes.all fun _ node => node.kind.valid && node.status.valid

/-- `snapshotToWire` succeeds; `statusToWire` knows the valid statuses. -/
def snapshotToWire (snapshot : Snapshot) : Bool :=
  (validateSnapshot snapshot).isOk && snapshot.status.valid && snapshot.workflow.all workflowToWire

/-- `frameToWire` succeeds; `frameKindToWire` knows the valid kinds. -/
def frameToWire (frame : Frame) : Bool :=
  frame.sequence != 0 && frame.payload.length ≤ maxWirePayloadBytes && frame.kind.valid

/-- The frame loop of `pageToWire`: the sequence that it expects after the frames. -/
def framesToWire (expected : UInt64) : List Frame → Option UInt64
  | [] => some expected
  | frame :: frames =>
    if frame.sequence != expected || !frameToWire frame then none
    else framesToWire (expected + 1) frames

/-- `pageToWire`; every failure is `ErrInvalidWireMessage`. -/
def pageToWire (a : Attachment) (after : UInt64) (limit : Int) : Option WirePage :=
  if limit < 1 || limit > maxWirePageFrames || a.frames.length > limit ||
      a.frameFloor != a.snapshot.frameFloor || a.terminal != a.snapshot.status.terminal then none
  else if !snapshotToWire a.snapshot then none
  else match framesToWire (after + 1) a.frames with
    | none => none
    | some expected =>
      if a.nextSequence != expected || a.nextSequence > a.snapshot.sequence + 1 then none
      else some { snapshot := a.snapshot, frames := a.frames, nextSequence := a.nextSequence,
                  frameFloor := a.frameFloor, terminal := a.terminal }

/-- `splitAttachPage`: one response for each frame, or one for the end of the call. -/
def splitAttachPage (page : WirePage) : List WirePage :=
  if page.frames.length = 0 then
    if !page.terminal then [] else [page]
  else page.frames.map fun frame =>
    { page with frames := [frame], nextSequence := frame.sequence + 1 }

/-! ## Loops -/

/-- What the environment gives one iteration. -/
structure Poll where
  loaded : Except Error Snapshot
  fits : WirePage → Bool := fun _ => true
  sends : WirePage → Bool := fun _ => true
  canceled : Bool := false

/-- How a loop ends. -/
inductive Ending
  /-- The normal end of the stream. -/
  | ended
  | failed
  /-- The context ended. -/
  | stopped
  /-- The loop would take another poll. -/
  | pending
  deriving DecidableEq

/-- The frames that a loop sent and how it ended. -/
structure Outcome where
  sent : List Frame
  ending : Ending

/-- The outcome of a loop that had sent `frames` before. -/
def Outcome.prepend (frames : List Frame) (o : Outcome) : Outcome := ⟨frames ++ o.sent, o.ending⟩

/-- The send loop of `Server.Attach`: the frames sent, and whether every response was sent. -/
def sendResponses (poll : Poll) : List WirePage → List Frame × Bool
  | [] => ([], true)
  | response :: responses =>
    if !poll.fits response || !poll.sends response then ([], false)
    else (response.frames ++ (sendResponses poll responses).1, (sendResponses poll responses).2)

/-- `Server.Attach`, from the cursor `after`. -/
def grpcAttach (callID : CallID) (limit : Int) (after : UInt64) : List Poll → Outcome
  | [] => ⟨[], .pending⟩
  | poll :: polls =>
    match attach poll.loaded callID after limit with
    | .error _ => ⟨[], .failed⟩
    | .ok a => match pageToWire a after limit with
      | none => ⟨[], .failed⟩
      | some page =>
        let sent := sendResponses poll (splitAttachPage page)
        if !sent.2 then ⟨sent.1, .failed⟩
        else if page.terminal then ⟨sent.1, .ended⟩
        else if page.frames.length > 0 then
          (grpcAttach callID limit (page.nextSequence - 1) polls).prepend sent.1
        else if poll.canceled then ⟨sent.1, .stopped⟩
        else (grpcAttach callID limit after polls).prepend sent.1

/-- The contiguity loop of `validateContinuationAttachment`. -/
def contiguous (expected : UInt64) : List Frame → Bool
  | [] => true
  | frame :: frames => frame.sequence == expected && contiguous (expected + 1) frames

/-- `validateContinuationAttachment` succeeds. -/
def validateContinuationAttachment (a : Attachment) (after : UInt64) (limit : Int) : Bool :=
  !(a.frames.length > limit || a.snapshot.sequence < after) && contiguous (after + 1) a.frames &&
    !(a.frames.length == 0 && a.snapshot.sequence > after)

/-- `continuationFrameEvent`: the message of one frame. -/
def continuationFrameEvent (frame : Frame) (snapshot : Snapshot) : WirePage :=
  { snapshot, frames := [frame], nextSequence := frame.sequence + 1,
    frameFloor := snapshot.frameFloor, terminal := snapshot.status.terminal }

/-- The event loop of `pumpContinuationEvents`: the frames sent, the cursor after them, and how the
loop was left early. -/
def sendEvents (poll : Poll) (snapshot : Snapshot) (after : UInt64) :
    List Frame → List Frame × UInt64 × Option Ending
  | [] => ([], after, none)
  | frame :: frames =>
    let event := continuationFrameEvent frame snapshot
    if !poll.fits event then ([], after, some .failed)
    else if !poll.sends event then ([], after, some .stopped)
    else
      let rest := sendEvents poll snapshot frame.sequence frames
      (frame :: rest.1, rest.2)

/-- `pumpContinuationEvents` from the cursor `after`, with the first page of
`handleContinuationAttach`. -/
def pumpContinuationEvents (callID : CallID) (pageSize : Int) (after : UInt64) :
    List Poll → Outcome
  | [] => ⟨[], .pending⟩
  | poll :: polls =>
    match attach poll.loaded callID after pageSize with
    | .error _ => ⟨[], .failed⟩
    | .ok a =>
      if !validateContinuationAttachment a after pageSize then ⟨[], .failed⟩
      else
        let sent := sendEvents poll a.snapshot after a.frames
        match sent.2.2 with
        | some ending => ⟨sent.1, ending⟩
        | none =>
          if a.terminal && sent.2.1 == a.snapshot.sequence then ⟨sent.1, .ended⟩
          else if sent.2.1 < a.snapshot.sequence then
            (pumpContinuationEvents callID pageSize sent.2.1 polls).prepend sent.1
          else if poll.canceled then ⟨sent.1, .stopped⟩
          else (pumpContinuationEvents callID pageSize sent.2.1 polls).prepend sent.1

end Keelith.Transport

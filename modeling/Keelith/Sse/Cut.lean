import Keelith.Sse.Framing

/-!
# A stream that is cut

The client sees a cut connection as the end of the stream. Of the frames that have arrived as a
whole it sends the messages (`readLines_frames`). What remains is a part of one more frame. At the
end of the stream `consumeProtoSSE` dispatches the data it has collected, although the blank line of
the event is missing. So an event that is cut behind `data` is delivered if the received part of its
data can be decoded (`PartTaken`); the shortest such part is empty.

`prefix_safe_iff`: in all other cases, and only then, the client delivers messages of complete
events.
-/

namespace Keelith.Sse

open Bytes

variable {α : Type} {c : Client α} {st : State α}

/-! ## The received part of an event -/

/-- The lines of data in the first `n` bytes of `data: ` lines. The last one may be cut, but not
inside `data`. -/
def receivedLines : List Bytes → Nat → List Bytes
  | [], _ => []
  | line :: lines, n =>
    if n < 4 then []
    else if n ≤ line.length + 6 then [line.take (n - 6)]
    else line :: receivedLines lines (n - (line.length + 7))

/-- The lines of data in the first `n` bytes of an event. -/
def Event.received (event : Event) (n : Nat) : List Bytes :=
  receivedLines event.lines (n - (written event.header).length)

/-- The lines that the client reads in the first `n` bytes of some lines. -/
def cutLines (lines : List Bytes) (n : Nat) : List Bytes := scanLines ((written lines).take n)

/-- The client takes the first `n` bytes of an event for an event: they have data, their lines are
valid and within the limit, and the data can be decoded. -/
def PartTaken (c : Client α) (event : Event) (n : Nat) : Prop :=
  event.received n ≠ [] ∧ (c.decode (join lf (event.received n))).isSome ∧
    (∀ line ∈ cutLines (Frame.event event).lines n, utf8Valid line = true) ∧
    (written (cutLines (Frame.event event).lines n)).length ≤ c.maxEventBytes

variable {line : Bytes} {n : Nat} {lines lines' : List Bytes} {token : Bytes}

theorem cutLines_nil (n : Nat) : cutLines [] n = [] := by
  simp [cutLines, written]

theorem cutLines_of_le (hlf : lf ∉ line) (hn : n ≤ line.length) :
    cutLines (line :: lines) n = if n = 0 then [] else [line.take n] := by
  rw [cutLines, written_cons, List.take_append_of_le_length hn]
  split
  next h => rw [h, List.take_zero, scanLines_nil]
  next h =>
    refine scanLines_of_notMem ?_ fun hmem => hlf (List.mem_of_mem_take hmem)
    rw [← List.length_pos_iff, List.length_take]
    omega

theorem cutLines_cons (hlf : lf ∉ line) (n : Nat) :
    cutLines (line :: lines) (line.length + 1 + n) = line :: cutLines lines n := by
  rw [cutLines, written_cons, Nat.add_assoc, List.take_length_add_append, Nat.add_comm 1,
    List.take_succ_cons, scanLines_cons hlf, cutLines]

theorem cutLines_append_of_le (hn : n ≤ (written lines).length) :
    cutLines (lines ++ lines') n = cutLines lines n := by
  rw [cutLines, written_append, List.take_append_of_le_length hn, cutLines]

theorem cutLines_append (h : ∀ line ∈ lines, lf ∉ line) (n : Nat) :
    cutLines (lines ++ lines') ((written lines).length + n) = lines ++ cutLines lines' n := by
  rw [cutLines, written_append, List.take_length_add_append, scanLines_written h, cutLines]

theorem length_dataLine (line : Bytes) : (dataLine line).length = line.length + 6 := by
  simp [dataLine, fieldLine, ascii]

theorem take_dataLine (h : 6 ≤ n) : (dataLine line).take n = dataLine (line.take (n - 6)) := by
  obtain ⟨n, rfl⟩ := Nat.exists_eq_add_of_le' h
  simp [dataLine, fieldLine, ascii]

theorem LineOk.take (h : LineOk line) (n : Nat) (hutf8 : utf8Valid (line.take n) = true) :
    LineOk (line.take n) :=
  ⟨fun hmem => h.lf (List.mem_of_mem_take hmem), fun hmem =>
    h.cr (List.mem_of_mem_take hmem), hutf8⟩

theorem take_dataLine_name (line : Bytes) (h : n < 6) : (dataLine line).take n =
    (ascii "data:".toList).take n := by
  have hsplit : dataLine line = ascii "data:".toList ++ space :: line := by
    simp [dataLine, fieldLine, ascii, colon]
  rw [hsplit, List.take_append_of_le_length (by simp [ascii]; omega)]

/-- A field whose name or colon is cut. -/
theorem fieldValue_part : ∀ n < 6, 0 < n → (ascii "data:".toList).take n ≠ [] ∧
    ((ascii "data:".toList).take n).head? ≠ some colon ∧
    fieldValue ((ascii "data:".toList).take n) = ((ascii "data".toList).take n, []) := by
  decide

theorem applyField_part (st : State α) (h : n < 4) :
    applyField st ((ascii "data".toList).take n) [] = (st, none) := by
  have hnames : ∀ n < 4, (ascii "data".toList).take n ≠ ascii "data".toList ∧
      (ascii "data".toList).take n ≠ ascii "event".toList ∧
        (ascii "data".toList).take n ≠ ascii "id".toList ∧
      (ascii "data".toList).take n ≠ ascii "retry".toList := by decide
  obtain ⟨hdata, hevent, hid, hretry⟩ := hnames n h
  rw [applyField, if_neg hdata, if_neg hevent, if_neg hid, if_neg hretry]

/-- The end of a line of data is missing. -/
theorem readLine_part (hline : LineOk line) (hpos : 0 < n)
    (hutf8 : utf8Valid ((dataLine line).take n) = true)
    (hfits : st.eventBytes + (((dataLine line).take n).length + 1) ≤ c.maxEventBytes) :
    readLine c st ((dataLine line).take n) =
      ({ st with
          data := st.data ++ written (if n < 4 then [] else [line.take (n - 6)])
          eventBytes := st.eventBytes + (((dataLine line).take n).length + 1) }, none) := by
  have hok : LineOk ((dataLine line).take n) := (lineOk_dataLine hline).take n hutf8
  by_cases hn : n < 6
  · -- the cut is in the name of the field, or before the value
    obtain ⟨hpart, hhead, hvalue⟩ := fieldValue_part n hn hpos
    rw [readLine_fits hok hfits, take_dataLine_name line hn, if_neg hpart, if_neg hhead, hvalue]
    by_cases hname : n < 4
    · rw [applyField_part _ hname, if_pos hname]
      simp [written]
    · have hfull : (ascii "data".toList).take n = ascii "data".toList :=
        List.take_of_length_le (by simp [ascii]; omega)
      have hzero : n - 6 = 0 := by omega
      rw [hfull, applyField_data, if_neg hname, hzero]
      simp [written]
  · rw [take_dataLine (by omega)] at hok hfits ⊢
    rw [readLine_dataLine hok hfits, if_neg (by omega)]

/-- What the client collects from the first bytes of the data. -/
theorem readLines_received (hlines : ∀ line ∈ lines, LineOk line)
    (hn : n ≤ (written (lines.map dataLine)).length)
    (hutf8 : ∀ line ∈ cutLines (lines.map dataLine) n, utf8Valid line = true)
    (hfits : st.eventBytes + (written (cutLines (lines.map dataLine) n)).length ≤ c.maxEventBytes) :
    readLines c st (cutLines (lines.map dataLine) n) =
      ({ st with
          data := st.data ++ written (receivedLines lines n)
          eventBytes := st.eventBytes + (written (cutLines (lines.map dataLine) n)).length },
        none) := by
  induction lines generalizing st n with
  | nil => simp [cutLines_nil, written, readLines, receivedLines]
  | cons line lines ih =>
    rw [List.forall_mem_cons] at hlines
    have hlf : lf ∉ dataLine line := (lineOk_dataLine hlines.1).lf
    have hlength := length_dataLine line
    rw [List.map_cons] at hn hutf8 hfits ⊢
    by_cases hcut : n ≤ line.length + 6
    · -- the cut is in this line
      rw [cutLines_of_le hlf (by omega)] at hutf8 hfits ⊢
      by_cases hzero : n = 0
      · simp [hzero, written, readLines, receivedLines]
      · have hone : ∀ l : Bytes, (written [l]).length = l.length + 1 := by simp [written]
        rw [if_neg hzero] at hutf8 hfits ⊢
        rw [hone] at hfits ⊢
        rw [readLines_cons, readLine_part hlines.1 (by omega) (hutf8 _ (by simp)) hfits]
        simp [readLines, receivedLines, hcut]
    · obtain ⟨k, rfl⟩ : ∃ k, n = (dataLine line).length + 1 + k := ⟨n - (line.length + 7), by omega⟩
      rw [cutLines_cons hlf] at hutf8 hfits ⊢
      rw [written_cons, List.length_append, List.length_cons] at hn hfits ⊢
      rw [List.forall_mem_cons] at hutf8
      have hreceived : receivedLines (line :: lines) ((dataLine line).length + 1 + k) =
          line :: receivedLines lines k := by
        rw [receivedLines, if_neg (by omega), if_neg (by omega)]
        congr 2
        omega
      rw [readLines_cons, readLine_dataLine (lineOk_dataLine hlines.1) (by omega)]
      dsimp only
      rw [ih hlines.2 (by omega) hutf8.2 (by dsimp only; omega), hreceived, written_cons]
      simp [written, Nat.add_assoc, Nat.add_comm 1]

/-! ## The end of the stream -/

/-- The lines of a cut text are beginnings of its lines. -/
theorem mem_cutLines (hlines : ∀ line ∈ lines, LineOk line ∧ line ≠ [])
    (h : token ∈ cutLines lines n) : token ≠ [] ∧ ∃ line ∈ lines, token <+: line := by
  induction lines generalizing n with
  | nil => simp [cutLines_nil] at h
  | cons line lines ih =>
    rw [List.forall_mem_cons] at hlines
    rcases Nat.lt_or_ge line.length n with hn | hn
    · obtain ⟨k, rfl⟩ : ∃ k, n = line.length + 1 + k := ⟨n - line.length - 1, by omega⟩
      rw [cutLines_cons hlines.1.1.lf] at h
      rcases List.mem_cons.mp h with rfl | h
      · exact ⟨hlines.1.2, token, by simp, List.prefix_refl token⟩
      · obtain ⟨hne, line', hline', hpart⟩ := ih hlines.2 h
        exact ⟨hne, line', List.mem_cons_of_mem _ hline', hpart⟩
    · rw [cutLines_of_le hlines.1.1.lf hn] at h
      split at h
      · cases h
      · obtain rfl := List.mem_singleton.mp h
        refine ⟨?_, line, by simp, List.take_prefix n line⟩
        rw [← List.length_pos_iff, List.length_take]
        omega

/-- What the client does with a part of some lines. -/
theorem counted_cutLines (st : State α) (hlines : ∀ line ∈ lines, LineOk line ∧ line ≠ [])
    (n : Nat) : Counted c st (cutLines lines n) (readLines c st (cutLines lines n)) := by
  refine counted_readLines st fun token htoken => ?_
  obtain ⟨hne, line, hline, hpart⟩ := mem_cutLines hlines htoken
  exact ⟨fun hmem => (hlines line hline).1.cr (hpart.mem hmem), hne⟩

theorem eq_append_of_cut {b : UInt8} {s before after : Bytes} (h : cut b s = some (before, after)) :
    s = before ++ b :: after := by
  induction s generalizing before with
  | nil => cases h
  | cons x s ih =>
    rw [cut] at h
    split at h
    next hx =>
      obtain ⟨rfl, rfl⟩ := Prod.mk.inj (Option.some.inj h)
      rw [hx, List.nil_append]
    next =>
      obtain ⟨⟨before', after'⟩, hcut, heq⟩ := Option.map_eq_some_iff.mp h
      obtain ⟨rfl, rfl⟩ := Prod.mk.inj heq
      rw [ih hcut, List.cons_append]

/-- The letter `d` of `data`. -/
def letterD : UInt8 := 'd'.toUInt8

theorem head_of_fieldValue (h : (fieldValue line).1 = ascii "data".toList) :
    line.head? = some letterD := by
  unfold fieldValue at h
  split at h
  next =>
    rw [show line = ascii "data".toList from h]
    rfl
  next field value hcut =>
    rw [eq_append_of_cut hcut, show field = ascii "data".toList from h]
    rfl

theorem finish_noData {result : State α × Option ReadError} (h : result.1.data = []) :
    finish c result = result := by
  obtain ⟨st', _ | err⟩ := result
  · exact if_neg (not_not.mpr h)
  · rfl

/-- Lines without data send nothing, also at the end of the stream. -/
theorem finish_sent_of_noData (hfresh : st.Fresh) (hlines : ∀ line ∈ lines, LineOk line ∧ line ≠ [])
    (hhead : ∀ line ∈ lines, line.head? ≠ some letterD) (n : Nat) :
    (finish c (readLines c st (cutLines lines n))).1.sent = st.sent := by
  have hcounted := counted_cutLines (c := c) st hlines n
  rw [finish_noData, hcounted.sent]
  rw [hcounted.data, hfresh.data]
  intro token htoken hfield
  obtain ⟨hne, line, hline, rest, rfl⟩ := mem_cutLines hlines htoken
  refine hhead _ hline ?_
  rw [List.head?_append_of_ne_nil _ hne, head_of_fieldValue hfield]

/-- The blank line of a frame is not among a part of its bytes. -/
theorem cutLines_frame (hn : n < (written (lines ++ [[]])).length) :
    cutLines (lines ++ [[]]) n = cutLines lines n := by
  refine cutLines_append_of_le ?_
  have hone : (written [[]]).length = 1 := rfl
  rw [written_append, List.length_append] at hn
  omega

/-- A part of a heartbeat sends nothing. -/
theorem finish_heartbeat (hfresh : st.Fresh) (hn : n < (written Frame.heartbeat.lines).length) :
    (finish c (readLines c st (cutLines Frame.heartbeat.lines n))).1.sent = st.sent := by
  have hcut : cutLines ([keepalive] ++ [[]]) n = cutLines [keepalive] n := cutLines_frame hn
  have hok : LineOk keepalive ∧ keepalive ≠ [] :=
    ⟨lineOk_of_ascii (forall_mem_of_all (by decide)), by decide⟩
  change (finish c (readLines c st (cutLines ([keepalive] ++ [[]]) n))).1.sent = st.sent
  rw [hcut]
  exact finish_sent_of_noData hfresh (by simpa using hok) (by decide) n

/-- What the client has collected of an event when the stream ends behind its header. -/
theorem readLines_cut {event : Event} (hvalid : event.Valid) (hfresh : st.Fresh) {k : Nat}
    (hk : k ≤ (written (event.lines.map dataLine)).length)
    (hutf8 : ∀ line ∈ event.header ++ cutLines (event.lines.map dataLine) k, utf8Valid line = true)
    (hfits : (written (event.header ++ cutLines (event.lines.map dataLine) k)).length ≤
      c.maxEventBytes) :
    ∃ bytes, readLines c st (event.header ++ cutLines (event.lines.map dataLine) k) =
      ({ st.withHeader event with
          data := written (receivedLines event.lines k), eventBytes := bytes }, none) := by
  have hbytes := hfresh.eventBytes
  rw [written_append, List.length_append] at hfits
  rw [List.forall_mem_append] at hutf8
  rw [readLines_append_ok (readLines_header hvalid (by omega)),
    readLines_received (lineOk_of_mem_lines hvalid.data) hk hutf8.2 (by dsimp only; omega)]
  simp [State.withHeader, hfresh.data]

/-- A part of an event is sent if it is taken for an event. -/
theorem finish_event {event : Event} (hvalid : event.Valid) (hfresh : st.Fresh)
    (hn : n < (written (Frame.event event).lines).length) :
    (PartTaken c event n → ∃ message,
      (finish c (readLines c st (cutLines (Frame.event event).lines n))).1.sent = st.sent ++
        [message]) ∧
    (¬ PartTaken c event n →
      (finish c (readLines c st (cutLines (Frame.event event).lines n))).1.sent = st.sent) := by
  have hcontents : ∀ line ∈ event.contents, LineOk line ∧ line ≠ [] := fun line hline =>
    ⟨lineOk_of_mem_contents hvalid line hline, ne_nil_of_mem_contents hline⟩
  have hheader : ∀ line ∈ event.header, LineOk line ∧ line ≠ [] := fun line hline =>
    hcontents line (List.mem_append_left _ hline)
  have hcut : cutLines (Frame.event event).lines n = cutLines event.contents n := cutLines_frame hn
  have hcounted := counted_cutLines (c := c) st hcontents n
  unfold PartTaken
  rw [hcut]
  rcases Nat.lt_or_ge n (written event.header).length with hlt | hge
  · -- there is no data yet
    have hreceived : event.received n = [] := by
      rw [Event.received, Nat.sub_eq_zero_of_le (by omega)]
      cases event.lines <;> rfl
    refine ⟨fun h => absurd hreceived h.1, fun _ => ?_⟩
    rw [Event.contents, cutLines_append_of_le (by omega)]
    refine finish_sent_of_noData hfresh hheader (fun line hline => ?_) n
    rcases mem_header hline with rfl | rfl | rfl <;> exact ne_of_beq_false rfl
  by_cases hok : (∀ line ∈ cutLines event.contents n, utf8Valid line = true) ∧
      (written (cutLines event.contents n)).length ≤ c.maxEventBytes
  · obtain ⟨k, rfl⟩ := Nat.exists_eq_add_of_le hge
    have hreceived : event.received ((written event.header).length + k) =
        receivedLines event.lines k := by
      rw [Event.received, Nat.add_sub_cancel_left]
    have hk : k ≤ (written (event.lines.map dataLine)).length := by
      have hone : (written [[]]).length = 1 := rfl
      rw [Frame.lines, Event.contents, written_append, written_append, List.length_append,
        List.length_append] at hn
      omega
    rw [Event.contents, cutLines_append fun line hline => (hheader line hline).1.lf] at hok ⊢
    obtain ⟨bytes, hread⟩ := readLines_cut (c := c) hvalid hfresh hk hok.1 hok.2
    rw [hread, hreceived]
    by_cases hgot : receivedLines event.lines k = []
    · refine ⟨fun h => absurd hgot h.1, fun _ => ?_⟩
      rw [hgot]
      rfl
    · have hne : written (receivedLines event.lines k) ≠ [] := by simp [written_eq_join hgot]
      rw [finish, if_pos hne, dispatch, if_neg hne, trimLf_written hgot]
      cases hdecode : c.decode (join lf (receivedLines event.lines k)) with
      | none => exact ⟨fun h => absurd h.2.1 (by simp), fun _ => rfl⟩
      | some value => exact ⟨fun _ => ⟨_, rfl⟩, fun h => absurd ⟨hgot, rfl, hok⟩ h⟩
  · refine ⟨fun h => absurd h.2.2 hok, fun _ => ?_⟩
    rcases hread : readLines c st (cutLines event.contents n) with ⟨st',
      _ | err⟩ <;> rw [hread] at hcounted
    · have hbytes := hcounted.bytes rfl
      have hfits := hcounted.fits rfl (by rw [hfresh.eventBytes]; omega)
      rw [hbytes, hfresh.eventBytes, Nat.zero_add] at hfits
      exact absurd ⟨hcounted.valid rfl, hfits⟩ hok
    · exact hcounted.sent

/-! ## Cuts -/

/-- The number of chunks that are among the first `n` bytes as a whole. -/
def arrived : List Bytes → Nat → Nat
  | [], _ => 0
  | chunk :: chunks, n => if chunk.length ≤ n then arrived chunks (n - chunk.length) + 1 else 0

/-- The number of bytes after the chunks that have arrived. -/
def leftover (chunks : List Bytes) (n : Nat) : Nat :=
  n - (chunks.take (arrived chunks n)).flatten.length

theorem take_flatten (chunks : List Bytes) (n : Nat) :
    chunks.flatten.take n = (chunks.take (arrived chunks n)).flatten ++
      (chunks[arrived chunks n]?.getD []).take (leftover chunks n) := by
  induction chunks generalizing n with
  | nil => simp
  | cons chunk chunks ih =>
    unfold leftover at ih ⊢
    rw [List.flatten_cons, arrived]
    split
    next h =>
      obtain ⟨k, rfl⟩ : ∃ k, n = chunk.length + k := ⟨n - chunk.length, by omega⟩
      rw [List.take_length_add_append, Nat.add_sub_cancel_left, ih k, List.take_succ_cons,
        List.flatten_cons,
        List.getElem?_cons_succ, List.length_append, Nat.add_sub_add_left, List.append_assoc]
    next h =>
      rw [List.take_append_of_le_length (by omega)]
      simp

theorem leftover_lt {chunks : List Bytes} {chunk : Bytes}
    (h : chunks[arrived chunks n]? = some chunk) : leftover chunks n < chunk.length := by
  induction chunks generalizing n with
  | nil => cases h
  | cons first chunks ih =>
    unfold leftover at ih ⊢
    rw [arrived] at h ⊢
    split at h
    next hle =>
      have hlt := ih h
      rw [if_pos hle, List.take_succ_cons, List.flatten_cons, List.length_append]
      omega
    next hlt =>
      obtain rfl : first = chunk := Option.some.inj h
      omega

theorem forall₂_written {maximum : Nat} {frames : List Frame} {chunks : List Bytes}
    (h : List.Forall₂ (fun frame chunk => frame.render maximum = .ok chunk) frames chunks) :
    (∀ frame ∈ frames, frame.Valid) ∧ chunks = frames.map fun frame => written frame.lines := by
  induction h with
  | nil => exact ⟨by simp, rfl⟩
  | cons hframe _ ih =>
    obtain ⟨hvalid, hchunk⟩ := Frame.render_eq_ok hframe
    exact ⟨List.forall_mem_cons.mpr ⟨hvalid, ih.1⟩, by rw [List.map_cons, ← hchunk, ← ih.2]⟩

/-- The stream is cut in an event, the client has read the frames before it, and it takes the part
for an event. -/
def Leaks (c : Client α) (frames : List Frame) (chunks : List Bytes) (n : Nat) : Prop :=
  ∃ event, frames[arrived chunks n]? = some (.event event) ∧
    (∀ frame ∈ frames.take (arrived chunks n), Readable c frame) ∧
      PartTaken c event (leftover chunks n)

/-- Of a stream that is cut after `n` bytes the client delivers messages of its complete events
only, unless the cut leaks. -/
theorem prefix_safe_iff {maximum : Nat} {frames : List Frame} {chunks : List Bytes}
    (hchunks : List.Forall₂ (fun frame chunk => frame.render maximum = .ok chunk) frames chunks)
    (c : Client α) (n : Nat) : (consumeProtoSSE c (chunks.flatten.take n)).1.sent.map some <+:
        expected c [] 0 (frames.take (arrived chunks n)) ↔ ¬ Leaks c frames chunks n := by
  obtain ⟨hvalid, hwritten⟩ := forall₂_written hchunks
  have hdone : ∀ frame ∈ frames.take (arrived chunks n), frame.Valid := fun frame hframe =>
    hvalid frame (List.mem_of_mem_take hframe)
  have hget : chunks[arrived chunks n]? = frames[arrived chunks n]?.map fun frame =>
      written frame.lines := by
    rw [hwritten, List.getElem?_map]
  have hscan : scanLines (chunks.flatten.take n) =
      (frames.take (arrived chunks n)).flatMap Frame.lines ++
        scanLines ((chunks[arrived chunks n]?.getD []).take (leftover chunks n)) := by
    have htake : chunks.take (arrived chunks n) =
        (frames.take (arrived chunks n)).map fun frame => written frame.lines := by
      rw [congrArg (List.take (arrived chunks n)) hwritten, List.map_take]
    rw [take_flatten, htake, scanLines_frames hdone]
  have hstart : (State.start : State α).Fresh := ⟨rfl, rfl, rfl⟩
  obtain ⟨hok, herror⟩ := readLines_frames (c := c) hdone hstart
  rw [consumeProtoSSE, hscan]
  by_cases hread : ∀ frame ∈ frames.take (arrived chunks n), Readable c frame
  · obtain ⟨st, hst, hfresh, hsent⟩ := hok hread
    have hsent : st.sent.map some = expected c [] 0 (frames.take (arrived chunks n)) := hsent
    rw [readLines_append_ok hst, ← hsent, hget]
    unfold Leaks
    cases hframe : frames[arrived chunks n]? with
    | none =>
      rw [Option.map_none, Option.getD_none, List.take_nil, scanLines_nil,
        finish_noData hfresh.data]
      exact iff_of_true (List.prefix_refl _) (by simp)
    | some frame =>
      rw [hframe] at hget
      rw [Option.map_some, Option.getD_some, ← cutLines]
      cases frame with
      | heartbeat => simp [finish_heartbeat hfresh (leftover_lt hget)]
      | event e =>
        obtain ⟨htaken, huntaken⟩ :=
          finish_event (c := c) (hvalid _ (List.mem_of_getElem? hframe)) hfresh
          (leftover_lt hget)
        by_cases hpart : PartTaken c e (leftover chunks n)
        · obtain ⟨message, hmessage⟩ := htaken hpart
          refine iff_of_false (fun h => ?_) (not_not.mpr ⟨e, rfl, hread, hpart⟩)
          have hlength := h.length_le
          simp only [hmessage, List.length_map, List.length_append,
            List.length_singleton] at hlength
          omega
        · rw [huntaken hpart]
          refine iff_of_true (List.prefix_refl _) ?_
          rintro ⟨e', he, -, hpart'⟩
          cases he
          exact hpart hpart'
  · obtain ⟨st, err, hst, hsent⟩ := herror hread
    rw [readLines_append_error hst]
    exact iff_of_true hsent fun h => hread h.choose_spec.2.1

/-! ## An event that is cut behind `data` -/

namespace CutEvent

/-- An event with a message in JSON. -/
def event : Event := ⟨[], [], ascii "\x7b\"n\":1\x7d".toList, 0⟩

/-- The number in the message. Without a payload, `UnmarshalProtoResponseBody` leaves the message
empty. -/
def client : Client Nat :=
  ⟨fun payload => if payload = [] then some 0 else if payload = event.data then some 1 else none,
    256⟩

/-- The event as it is rendered. -/
def chunks : List Bytes := [ascii "data: \x7b\"n\":1\x7d\n\n".toList]

theorem evaluated : Sse.render 256 event = .ok (ascii "data: \x7b\"n\":1\x7d\n\n".toList) ∧
      (consumeProtoSSE client (chunks.flatten.take 4)).1.sent = [⟨[], [], 0, 0⟩] ∧
        arrived chunks 4 = 0 ∧ arrived chunks 3 = 0 ∧ event.received (leftover chunks 3) = [] := by
  decide +kernel

theorem rendered : List.Forall₂ (fun frame chunk => Frame.render 256 frame = .ok chunk)
    [.event event] chunks :=
  .cons evaluated.1 .nil

/-- An empty message is delivered that was never sent. -/
theorem empty_message_delivered :
    ¬ (consumeProtoSSE client (chunks.flatten.take 4)).1.sent.map some <+:
      expected client [] 0 ([Frame.event event].take (arrived chunks 4)) := by
  rw [evaluated.2.1, evaluated.2.2.1]
  simp [expected]

/-- One byte earlier nothing is delivered. -/
theorem nothing_delivered : (consumeProtoSSE client (chunks.flatten.take 3)).1.sent.map some <+:
      expected client [] 0 ([Frame.event event].take (arrived chunks 3)) := by
  refine (prefix_safe_iff rendered client 3).mpr ?_
  rintro ⟨e, he, -, hpart⟩
  rw [evaluated.2.2.2.1] at he
  cases he
  exact hpart.1 evaluated.2.2.2.2

end CutEvent

end Keelith.Sse

import Keelith.Lib.Checks
import Keelith.Sse.Model

/-!
# Rendered events and their lines

What the client does with the lines of a rendered frame. A frame is a list of lines without line
ends, the last one blank (`Frame.lines`, `render_eq_ok`), and the scanner finds these lines
(`scanLines_written`). The lines of an event before the blank one collect its fields
(`readLines_contents`), and the blank one sends the message (`readLines_event`).

`Message`s are compared with the events by `expected`: the name and the decoded data of the event,
with the last id and the last delay up to it.
-/

namespace Keelith.Sse

open Bytes

variable {α : Type} {c : Client α} {st : State α}

/-! ## Lines -/

/-- A line as the server writes it. -/
structure LineOk (line : Bytes) : Prop where
  lf : lf ∉ line
  cr : cr ∉ line
  utf8 : utf8Valid line = true

theorem written_append (lines lines' : List Bytes) :
    written (lines ++ lines') = written lines ++ written lines' :=
  List.flatMap_append

theorem written_cons (line : Bytes) (lines : List Bytes) :
    written (line :: lines) = line ++ lf :: written lines := by
  simp [written]

variable {line : Bytes} {maximum : Nat} {event : Event} {value : Bytes} {frame : Frame}

theorem scanLines_cons (h : lf ∉ line) (rest : Bytes) :
    scanLines (line ++ lf :: rest) = line :: scanLines rest := by
  have hsplit : split lf (line ++ lf :: rest) = line :: split lf rest := by
    rw [split_append_sep, split_of_notMem h, List.singleton_append]
  have hne : split lf rest ≠ [] := split_ne_nil rest
  unfold scanLines
  dsimp only
  rw [hsplit, List.getLast?_cons, List.dropLast_cons_of_ne_nil hne]
  cases hlast : (split lf rest).getLast? with
  | none => exact absurd (List.getLast?_eq_none_iff.mp hlast) hne
  | some last =>
    simp only [Option.getD_some]
    split <;> rfl

theorem scanLines_written {lines : List Bytes} (h : ∀ line ∈ lines, lf ∉ line) (rest : Bytes) :
    scanLines (written lines ++ rest) = lines ++ scanLines rest := by
  induction lines with
  | nil => rfl
  | cons line lines ih =>
    rw [List.forall_mem_cons] at h
    rw [written_cons, List.append_assoc, List.cons_append, scanLines_cons h.1, ih h.2,
      List.cons_append]

@[simp] theorem scanLines_nil : scanLines [] = [] := rfl

theorem scanLines_of_notMem (hne : line ≠ []) (h : lf ∉ line) : scanLines line = [line] := by
  simp [scanLines, split_of_notMem h, hne]

theorem readLines_cons (st : State α) (line : Bytes) (lines : List Bytes) :
    readLines c st (line :: lines) = match readLine c st line with
      | (st, some err) => (st, some err)
      | (st, none) => readLines c st lines := rfl

theorem readLines_append (st : State α) (lines lines' : List Bytes) :
    readLines c st (lines ++ lines') = match readLines c st lines with
      | (st, some err) => (st, some err)
      | (st, none) => readLines c st lines' := by
  induction lines generalizing st with
  | nil => rfl
  | cons line lines ih =>
    rw [List.cons_append, readLines_cons, readLines_cons]
    rcases readLine c st line with ⟨st', _ | err⟩
    · exact ih st'
    · rfl

variable {st' : State α} {field chunk : Bytes} {frames : List Frame}

section

variable {lines : List Bytes}

theorem readLines_append_ok (h : readLines c st lines = (st', none))
    (lines' : List Bytes) : readLines c st (lines ++ lines') = readLines c st' lines' := by
  rw [readLines_append, h]

theorem readLines_append_error {err : ReadError}
    (h : readLines c st lines = (st', some err)) (lines' : List Bytes) :
    readLines c st (lines ++ lines') = (st', some err) := by
  rw [readLines_append, h]

/-! ## Reading one line -/

theorem dropCR_of_notMem (h : cr ∉ line) : dropCR line = line := by
  unfold dropCR
  rw [if_neg]
  exact fun hlast => h (List.mem_of_getLast? hlast)

/-- What lines with content do: they send nothing, only `data` collects data, and lines that are
taken are valid and counted. -/
structure Counted (c : Client α) (st : State α) (lines : List Bytes)
    (result : State α × Option ReadError) : Prop where
  sent : result.1.sent = st.sent
  data : (∀ line ∈ lines, (fieldValue line).1 ≠ ascii "data".toList) → result.1.data = st.data
  valid : result.2 = none → ∀ line ∈ lines, utf8Valid line = true
  bytes : result.2 = none → result.1.eventBytes = st.eventBytes + (written lines).length
  fits : result.2 = none → st.eventBytes ≤ c.maxEventBytes → result.1.eventBytes ≤ c.maxEventBytes

theorem Counted.error {err : ReadError} (hsent : st'.sent = st.sent) (hdata : st'.data = st.data) :
    Counted c st lines (st', some err) :=
  ⟨hsent, fun _ => hdata, nofun, nofun, nofun⟩

theorem counted_readLine (st : State α) {token : Bytes} (hcr : cr ∉ token) (hne : token ≠ []) :
    Counted c st [token] (readLine c st token) := by
  unfold readLine
  dsimp only
  rw [dropCR_of_notMem hcr, if_neg hne]
  split
  · exact .error rfl rfl
  split
  · exact .error rfl rfl
  split
  · exact .error rfl rfl
  next hutf8 hfits =>
  have hbytes : st.eventBytes + (token.length + 1) = st.eventBytes + (written [token]).length := by
    simp [written]
  have htaken : ∀ st' : State α, st'.sent = st.sent →
      ((fieldValue token).1 ≠ ascii "data".toList → st'.data = st.data) →
      st'.eventBytes = st.eventBytes + (token.length + 1) → Counted c st [token] (st', none) :=
    fun st' hsent hdata hcount => ⟨hsent, fun h => hdata (h token (by simp)),
      fun _ => by simpa using hutf8,
      fun _ => hcount.trans hbytes, fun _ _ => hcount ▸ Nat.not_lt.mp hfits⟩
  split
  · exact htaken _ rfl (fun _ => rfl) rfl
  unfold applyField
  split
  next hfield => exact htaken _ rfl (fun h => absurd hfield h) rfl
  repeat' split
  all_goals first
    | exact .error rfl rfl
    | exact htaken _ rfl (fun _ => rfl) rfl

theorem counted_readLines (st : State α) (h : ∀ line ∈ lines, cr ∉ line ∧ line ≠ []) :
    Counted c st lines (readLines c st lines) := by
  induction lines generalizing st with
  | nil => exact ⟨rfl, fun _ => rfl, fun _ => by simp, fun _ => by
      simp [readLines, written], fun _ hst => hst⟩
  | cons line lines ih =>
    rw [List.forall_mem_cons] at h
    have hline := counted_readLine (c := c) st h.1.1 h.1.2
    rw [readLines_cons]
    rcases hread : readLine c st line with ⟨st', _ | err⟩ <;> rw [hread] at hline
    · have hrest := ih st' h.2
      have hbytes : st'.eventBytes = st.eventBytes + (line.length + 1) := by
        simpa [written] using hline.bytes rfl
      refine ⟨hrest.sent.trans hline.sent, fun hfields => ?_, fun hnone => ?_, fun hnone => ?_,
        fun hnone hst => ?_⟩
      · rw [List.forall_mem_cons] at hfields
        exact (hrest.data hfields.2).trans (hline.data (by simpa using hfields.1))
      · exact List.forall_mem_cons.mpr ⟨hline.valid rfl line (by simp), hrest.valid hnone⟩
      · rw [hrest.bytes hnone, hbytes, written_cons, List.length_append, List.length_cons]
        omega
      · exact hrest.fits hnone (hline.fits rfl hst)
    · refine ⟨hline.sent, fun hfields => hline.data ?_, nofun, nofun, nofun⟩
      simpa using (List.forall_mem_cons.mp hfields).1

/-- A line of the server that is within the limit. -/
theorem readLine_fits (hline : LineOk line)
    (hfits : st.eventBytes + (line.length + 1) ≤ c.maxEventBytes) : readLine c st line =
      if line = [] then dispatch c { st with eventBytes := st.eventBytes + (line.length + 1) }
      else if line.head? = some colon then
        ({ st with eventBytes := st.eventBytes + (line.length + 1) }, none)
      else applyField { st with eventBytes := st.eventBytes + (line.length + 1) }
        (fieldValue line).1
        (fieldValue line).2 := by
  have htoken : ¬ maxTokenSize c ≤ line.length := by
    unfold maxTokenSize
    omega
  unfold readLine
  rw [if_neg htoken, dropCR_of_notMem hline.cr]
  simp [hline.utf8, Nat.not_lt.mpr hfits]

theorem fieldValue_fieldLine (h : colon ∉ field) (value : Bytes) :
    fieldValue (fieldLine field value) = (field, value) := by
  rw [fieldValue, fieldLine, cut_append h]
  rfl

theorem readLine_field (hfield : colon ∉ field) (hne : field ≠ [])
    (hline : LineOk (fieldLine field value))
    (hfits : st.eventBytes + ((fieldLine field value).length + 1) ≤ c.maxEventBytes) :
    readLine c st (fieldLine field value) =
      applyField { st with eventBytes := st.eventBytes + ((fieldLine field value).length + 1) }
        field value := by
  obtain ⟨b, field, rfl⟩ := List.exists_cons_of_ne_nil hne
  have hcolon : b ≠ colon := fun h => hfield (h ▸ List.mem_cons_self)
  rw [readLine_fits hline hfits, fieldValue_fieldLine hfield]
  simp [fieldLine, hcolon]

/-! ## Rendered events -/

/-- What `Render` checks. -/
structure Event.Valid (event : Event) : Prop where
  id : validID event.id = true
  name : validName event.name = true
  data : utf8Valid event.data = true
  retry : validRetry event.retry = true

/-- The lines of an event before the blank one. -/
def Event.contents (event : Event) : List Bytes := event.header ++ event.lines.map dataLine

theorem renderData_eq_ok {payload payload' : Bytes}
    (h : renderData maximum payload lines = .ok payload') :
    payload' = payload ++ written (lines.map dataLine) := by
  induction lines generalizing payload with
  | nil => simpa [written] using (Except.ok.inj h).symm
  | cons line lines ih =>
    obtain ⟨-, h⟩ := guard_eq_ok.mp h
    rw [ih h, List.map_cons, List.append_assoc, ← written_append, List.singleton_append]

theorem render_eq_ok (h : render maximum event = .ok chunk) :
    event.Valid ∧ chunk = written (event.contents ++ [[]]) ∧ chunk.length ≤ maximum := by
  obtain ⟨hvalid, h⟩ := guard_eq_ok.mp h
  obtain ⟨payload, hpayload, h⟩ := bind_eq_ok.mp h
  obtain ⟨hsize, h⟩ := guard_eq_ok.mp h
  obtain rfl := Except.ok.inj h
  simp only [Bool.or_eq_true, not_or, Bool.not_eq_true, Bool.not_eq_false'] at hvalid
  obtain ⟨⟨⟨⟨⟨-, hid⟩, hname⟩, hdata⟩, -⟩, hretry⟩ := hvalid
  refine ⟨⟨hid, hname, hdata, hretry⟩, ?_, Nat.not_lt.mp hsize⟩
  rw [renderData_eq_ok hpayload, Event.contents, written_append, written_append]
  rfl

/-! ## The lines of a rendered event -/

theorem lineOk_append {line' : Bytes} (h : ∀ b ∈ line, b < 0x80 ∧ b ≠ lf ∧ b ≠ cr)
    (h' : LineOk line') : LineOk (line ++ line') := by
  induction line with
  | nil => exact h'
  | cons b line ih =>
    rw [List.forall_mem_cons] at h
    obtain ⟨hlf, hcr, hutf8⟩ := ih h.2
    refine ⟨?_, ?_, ?_⟩
    · rw [List.cons_append, List.mem_cons, not_or]
      exact ⟨Ne.symm h.1.2.1, hlf⟩
    · rw [List.cons_append, List.mem_cons, not_or]
      exact ⟨Ne.symm h.1.2.2, hcr⟩
    · rw [List.cons_append, utf8Valid_ascii_cons h.1.1, hutf8]

theorem lineOk_of_ascii (h : ∀ b ∈ line, b < 0x80 ∧ b ≠ lf ∧ b ≠ cr) : LineOk line := by
  have hnil : LineOk [] := ⟨nofun, nofun, rfl⟩
  simpa using lineOk_append h hnil

theorem lineOk_fieldLine (hfield : ∀ b ∈ field, b < 0x80 ∧ b ≠ lf ∧ b ≠ cr)
    (hvalue : LineOk value) : LineOk (fieldLine field value) := by
  have hblank : ∀ b ∈ [colon, space], b < 0x80 ∧ b ≠ lf ∧ b ≠ cr := forall_mem_of_all (by decide)
  exact lineOk_append hfield (lineOk_append hblank hvalue)

theorem lineOk_id (h : validID value = true) : LineOk value := by
  simp only [validID, Bool.and_eq_true, Bool.not_eq_true', containsAny_eq_false_iff] at h
  obtain ⟨⟨-, hutf8⟩, hbytes⟩ := h
  exact ⟨fun hmem => hbytes _ hmem (by decide), fun hmem => hbytes _ hmem (by decide), hutf8⟩

set_option maxRecDepth 4000 in
/-- The bytes of names and numbers are ASCII. -/
theorem plain_byte : ∀ n < 256, (nameByte (UInt8.ofNat n) = true ∨ isDigit (UInt8.ofNat n) = true) →
    UInt8.ofNat n < 0x80 ∧ UInt8.ofNat n ≠ lf ∧ UInt8.ofNat n ≠ cr := by
  decide

theorem lineOk_of_plain (h : ∀ b ∈ value, nameByte b = true ∨ isDigit b = true) : LineOk value := by
  refine lineOk_of_ascii fun b hb => ?_
  have hplain := plain_byte b.toNat b.toNat_lt
  rw [UInt8.ofNat_toNat] at hplain
  exact hplain (h b hb)

theorem utf8Run_replaceCrLf (s : Bytes) (state : Utf8State) :
    utf8Run (replaceCrLf s) state = utf8Run s state := by
  induction s generalizing state with
  | nil => rfl
  | cons b s ih =>
    rw [replaceCrLf]
    split
    next h =>
      obtain ⟨rfl, hhead⟩ := h
      obtain ⟨s, rfl⟩ : ∃ t, s = lf :: t := by
        cases s with
        | nil => cases hhead
        | cons b t => exact ⟨t, by rw [Option.some.inj hhead]⟩
      rw [ih, utf8Run_ascii_cons (by decide : cr < 0x80),
        utf8Run_ascii_cons (by decide : lf < 0x80)]
      split <;> rfl
    next =>
      exact congrArg _ (funext ih)

theorem utf8Run_replaceCr (s : Bytes) (state : Utf8State) :
    utf8Run (replaceCr s) state = utf8Run s state := by
  induction s generalizing state with
  | nil => rfl
  | cons b s ih =>
    rw [replaceCr, List.map_cons]
    split
    next h =>
      rw [h, utf8Run_ascii_cons (by decide : lf < 0x80), utf8Run_ascii_cons (by decide : cr < 0x80)]
      exact if_congr Iff.rfl (ih _) rfl
    next =>
      exact congrArg _ (funext ih)

theorem cr_notMem_text (event : Event) : cr ∉ event.text := by
  intro hmem
  obtain ⟨b, -, hb⟩ := List.mem_map.mp hmem
  split at hb
  next => exact absurd hb (by decide)
  next h => exact h hb

theorem lineOk_of_mem_lines (hdata : utf8Valid event.data = true) :
    ∀ line ∈ event.lines, LineOk line := by
  intro line hline
  refine ⟨notMem_of_mem_split hline, fun hmem => ?_, ?_⟩
  · exact cr_notMem_text event (mem_of_mem_split hline hmem)
  · refine utf8Valid_of_mem_split (by decide) ?_ hline
    rwa [utf8Valid, Event.text, utf8Run_replaceCr, utf8Run_replaceCrLf]

/-- The names of the fields. -/
def fieldNames : List Bytes :=
  [ascii "id".toList, ascii "event".toList, ascii "retry".toList, ascii "data".toList]

/-- The bytes of a name of a field. -/
theorem field_bytes : ∀ field ∈ fieldNames,
    field ≠ [] ∧ colon ∉ field ∧ ∀ b ∈ field, b < 0x80 ∧ b ≠ lf ∧ b ≠ cr := by
  have hall : ∀ field ∈ fieldNames,
      field ≠ [] ∧ colon ∉ field ∧ field.all (fun b => decide (b < 0x80 ∧ b ≠ lf ∧ b ≠ cr)) =
        true := by decide
  intro field hfield
  obtain ⟨hne, hcolon, hbytes⟩ := hall field hfield
  exact ⟨hne, hcolon, forall_mem_of_all hbytes⟩

/-- The lines of the header. -/
theorem mem_header (h : line ∈ event.header) :
    line = fieldLine (ascii "id".toList) event.id ∨
      line = fieldLine (ascii "event".toList) event.name ∨
      line = fieldLine (ascii "retry".toList) (formatNat (event.retry / millisecond).toNat) := by
  simp only [Event.header, List.mem_append, List.mem_ite_nil_left, List.mem_singleton] at h
  rcases h with (⟨-, h⟩ | ⟨-, h⟩) | ⟨-, h⟩
  · exact .inl h
  · exact .inr (.inl h)
  · exact .inr (.inr h)

theorem ne_nil_of_mem_contents (h : line ∈ event.contents) : line ≠ [] := by
  have hfield : ∀ field value, fieldLine field value ≠ [] := by simp [fieldLine]
  rcases List.mem_append.mp h with h | h
  · rcases mem_header h with rfl | rfl | rfl <;> exact hfield _ _
  · obtain ⟨text, -, rfl⟩ := List.mem_map.mp h
    exact hfield _ _

theorem lineOk_name (h : validName value = true) : LineOk value := by
  rw [validName, Bool.and_eq_true, List.all_eq_true] at h
  exact lineOk_of_plain fun b hb => .inl (h.2 b hb)

theorem lineOk_formatNat (n : Nat) : LineOk (formatNat n) :=
  lineOk_of_plain fun b hb => .inr (isDigit_of_mem_formatNat b hb)

theorem lineOk_field (hfield : field ∈ fieldNames) (h : LineOk value) :
    LineOk (fieldLine field value) :=
  lineOk_fieldLine (field_bytes field hfield).2.2 h

theorem lineOk_of_mem_contents (h : event.Valid) : ∀ line ∈ event.contents, LineOk line := by
  intro line hline
  rcases List.mem_append.mp hline with hline | hline
  · rcases mem_header hline with rfl | rfl | rfl
    · exact lineOk_field (by decide) (lineOk_id h.id)
    · exact lineOk_field (by decide) (lineOk_name h.name)
    · exact lineOk_field (by decide) (lineOk_formatNat _)
  · obtain ⟨text, htext, rfl⟩ := List.mem_map.mp hline
    exact lineOk_field (by decide) (lineOk_of_mem_lines h.data text htext)

/-! ## Reading an event -/

theorem parseRetry_formatNat {retry : Duration} (h : validRetry retry = true) (hne : retry ≠ 0) :
    parseRetry (formatNat (retry / millisecond).toNat) = some retry := by
  simp only [validRetry, Bool.or_eq_true, beq_iff_eq, hne, false_or, Bool.and_eq_true,
    decide_eq_true_eq] at h
  obtain ⟨⟨hmin, hmax⟩, hmod⟩ := h
  have hbounds : (100000000 : Int) ≤ retry ∧ retry ≤ 3600000000000 := ⟨hmin, hmax⟩
  have hms : millisecond = (1000000 : Int) := rfl
  rw [hms] at hmod ⊢
  have hnat : ((retry / 1000000).toNat : Int) = retry / 1000000 := Int.toNat_of_nonneg (by lia)
  have hproduct : retry / 1000000 * 1000000 = retry := by lia
  have hbmod : retry.bmod (2 ^ 64) = retry := by
    rw [Int.bmod_def]
    have hemod : retry % (2 ^ 64 : Nat) = retry := Int.emod_eq_of_lt (by lia) (by lia)
    rw [hemod, if_pos (by lia)]
  rw [parseRetry, parseInt_formatNat (by lia), hnat, Option.bind_eq_bind, Option.bind_some]
  simp only [hms, hproduct, hbmod, hmin, hmax, and_self, if_true]

theorem applyField_data (st : State α) (value : Bytes) :
    applyField st (ascii "data".toList) value =
      ({ st with data := st.data ++ value ++ [lf] }, none) := by
  rw [applyField, if_pos rfl]

theorem applyField_event (st : State α) (h : validName value = true) :
    applyField st (ascii "event".toList) value = ({ st with eventName := value }, none) := by
  rw [applyField, if_neg (by decide), if_pos rfl, if_pos h]

theorem applyField_id (st : State α) (h : validID value = true) :
    applyField st (ascii "id".toList) value = ({ st with lastID := value }, none) := by
  rw [applyField, if_neg (by decide), if_neg (by decide), if_pos rfl, if_pos h]

theorem applyField_retry (st : State α) (value : Bytes) :
    applyField st (ascii "retry".toList) value =
      ({ st with retry := (parseRetry value).getD st.retry }, none) := by
  rw [applyField, if_neg (by decide), if_neg (by decide), if_neg (by decide), if_pos rfl]

/-- A line that is written only if its field is set. -/
theorem readLines_optional (c : Client α) (st : State α) (update : State α → State α) {skip : Prop}
    [Decidable skip] (hfield : field ∈ fieldNames)
    (hvalue : LineOk value) (hskip : skip → ∀ st, update st = st)
    (happly : ¬ skip → ∀ st, applyField st field value = (update st, none))
    (hfits : st.eventBytes + (written (if skip then [] else [fieldLine field value])).length ≤
      c.maxEventBytes) : readLines c st (if skip then [] else [fieldLine field value]) =
      (update { st with
        eventBytes := st.eventBytes +
          (written (if skip then [] else [fieldLine field value])).length }, none) := by
  by_cases h : skip
  · simp [h, readLines, written, hskip h]
  · obtain ⟨hne, hcolon, -⟩ := field_bytes field hfield
    have hlen : (written [fieldLine field value]).length = (fieldLine field value).length + 1 := by
      simp [written]
    rw [if_neg h, hlen] at hfits ⊢
    rw [readLines_cons, readLine_field hcolon hne (lineOk_field hfield hvalue) hfits, happly h]
    rfl

/-- The fields of an event before its data. -/
def State.withHeader (st : State α) (event : Event) : State α :=
  { st with
    lastID := if event.id = [] then st.lastID else event.id
    eventName := if event.name = [] then st.eventName else event.name
    retry := if event.retry = 0 then st.retry else event.retry }

theorem readLines_header (hvalid : event.Valid)
    (hfits : st.eventBytes + (written event.header).length ≤ c.maxEventBytes) :
    readLines c st event.header =
      ({ st.withHeader event with eventBytes := st.eventBytes + (written event.header).length },
        none) := by
  rw [Event.header, written_append, written_append, List.length_append,
    List.length_append] at hfits ⊢
  have hid : event.id ≠ [] → ∀ st : State α, applyField st (ascii "id".toList) event.id =
      ({ st with lastID := if event.id = [] then st.lastID else event.id }, none) := by
    intro h st
    rw [applyField_id st hvalid.id, if_neg h]
  have hevent : event.name ≠ [] → ∀ st : State α, applyField st (ascii "event".toList) event.name =
      ({ st with eventName := if event.name = [] then st.eventName else event.name }, none) := by
    intro h st
    rw [applyField_event st hvalid.name, if_neg h]
  have hretry : event.retry ≠ 0 → ∀ st : State α,
      applyField st (ascii "retry".toList) (formatNat (event.retry / millisecond).toNat) =
        ({ st with retry := if event.retry = 0 then st.retry else event.retry }, none) := by
    intro h st
    rw [applyField_retry, parseRetry_formatNat hvalid.retry h, Option.getD_some, if_neg h]
  rw [List.append_assoc, readLines_append_ok (readLines_optional c st _ (by decide)
      (lineOk_id hvalid.id) (fun h st => by simp [h]) hid (by omega)),
    readLines_append_ok (readLines_optional c _ _ (by decide) (lineOk_name hvalid.name)
      (fun h st => by simp [h]) hevent (by dsimp only; omega)),
    readLines_optional c _ _ (by decide) (lineOk_formatNat _) (fun h st => by simp [h]) hretry
      (by dsimp only; omega)]
  simp only [State.withHeader, Nat.add_assoc]

theorem lineOk_dataLine (h : LineOk value) : LineOk (dataLine value) :=
  lineOk_field (by decide) h

theorem readLine_dataLine (hline : LineOk (dataLine value))
    (hfits : st.eventBytes + ((dataLine value).length + 1) ≤ c.maxEventBytes) :
    readLine c st (dataLine value) =
      ({ st with
          data := st.data ++ written [value]
          eventBytes := st.eventBytes + ((dataLine value).length + 1) }, none) := by
  obtain ⟨hne, hcolon, -⟩ := field_bytes (ascii "data".toList) (by decide)
  rw [dataLine, readLine_field hcolon hne hline hfits, applyField_data]
  simp [written]

theorem readLines_data (hlines : ∀ line ∈ lines, LineOk line)
    (hfits : st.eventBytes + (written (lines.map dataLine)).length ≤ c.maxEventBytes) :
    readLines c st (lines.map dataLine) =
      ({ st with
          data := st.data ++ written lines
          eventBytes := st.eventBytes + (written (lines.map dataLine)).length }, none) := by
  induction lines generalizing st with
  | nil => simp [readLines, written]
  | cons line lines ih =>
    rw [List.forall_mem_cons] at hlines
    rw [List.map_cons, written_cons, List.length_append, List.length_cons] at hfits
    rw [List.map_cons, readLines_cons, readLine_dataLine (lineOk_dataLine hlines.1) (by omega)]
    dsimp only
    rw [ih hlines.2 (by dsimp only; omega), written_cons, written_cons]
    simp [written, Nat.add_assoc, Nat.add_comm 1]

theorem readLines_contents (hvalid : event.Valid)
    (hfits : st.eventBytes + (written event.contents).length ≤ c.maxEventBytes) :
    readLines c st event.contents =
      ({ st.withHeader event with
          data := st.data ++ written event.lines
          eventBytes := st.eventBytes + (written event.contents).length }, none) := by
  rw [Event.contents, written_append, List.length_append] at hfits ⊢
  rw [readLines_append_ok (readLines_header hvalid (by omega)),
    readLines_data (lineOk_of_mem_lines hvalid.data) (by dsimp only; omega)]
  simp only [State.withHeader, Nat.add_assoc]

theorem written_eq_join (h : lines ≠ []) : written lines = join lf lines ++ [lf] := by
  induction lines with
  | nil => exact absurd rfl h
  | cons line lines ih =>
    rw [written_cons]
    by_cases hne : lines = []
    · simp [hne, written]
    · rw [ih hne, join_cons hne, List.append_assoc, List.cons_append]

theorem trimLf_written (h : lines ≠ []) : trimLf (written lines) = join lf lines := by
  simp [trimLf, written_eq_join h]

theorem lines_ne_nil (event : Event) : event.lines ≠ [] := split_ne_nil _

end

/-! ## Frames -/

/-- The lines of a frame. -/
def Frame.lines : Frame → List Bytes
  | .event e => e.contents ++ [[]]
  | .heartbeat => [keepalive, []]

/-- The events among the frames are valid. -/
def Frame.Valid : Frame → Prop
  | .event e => e.Valid
  | .heartbeat => True

theorem Frame.render_eq_ok (h : frame.render maximum = .ok chunk) :
    frame.Valid ∧ chunk = written frame.lines := by
  cases frame with
  | event e =>
    obtain ⟨hvalid, hchunk, -⟩ := Sse.render_eq_ok h
    exact ⟨hvalid, hchunk⟩
  | heartbeat => exact ⟨trivial, (Except.ok.inj h).symm⟩

theorem Frame.lf_notMem (h : frame.Valid) : ∀ line ∈ frame.lines, lf ∉ line := by
  cases frame with
  | event e =>
    intro line hline
    rcases List.mem_append.mp hline with hline | hline
    · exact (lineOk_of_mem_contents h line hline).lf
    · simp [List.mem_singleton.mp hline]
  | heartbeat => decide

/-- The scanner finds the lines of the frames. -/
theorem scanLines_frames (h : ∀ frame ∈ frames, frame.Valid) (rest : Bytes) :
    scanLines ((frames.map fun frame => written frame.lines).flatten ++ rest) =
      frames.flatMap Frame.lines ++ scanLines rest := by
  have hflatten : (frames.map fun frame => written frame.lines).flatten =
      written (frames.flatMap Frame.lines) := by
    rw [written, List.flatMap_assoc]
    rfl
  rw [hflatten, scanLines_written]
  intro line hline
  obtain ⟨frame, hframe, hline⟩ := List.mem_flatMap.mp hline
  exact Frame.lf_notMem (h frame hframe) line hline

/-- The client has room for the frame and can decode its data. -/
def Readable (c : Client α) : Frame → Prop
  | .event e => (written (Frame.event e).lines).length ≤ c.maxEventBytes ∧ (c.decode e.text).isSome
  | .heartbeat => (written Frame.heartbeat.lines).length ≤ c.maxEventBytes

/-- The client is between two frames. -/
structure State.Fresh (st : State α) : Prop where
  eventName : st.eventName = []
  data : st.data = []
  eventBytes : st.eventBytes = 0

/-- The messages of the events, with the last id and delay before them; `none` is an event that
cannot be decoded. -/
def expected (c : Client α) (lastID : Bytes) (retry : Duration) :
    List Frame → List (Option (Message α))
  | [] => []
  | .heartbeat :: frames => expected c lastID retry frames
  | .event e :: frames =>
    (c.decode e.text).map (fun value =>
      ⟨if e.id = [] then lastID else e.id, e.name, value,
        if e.retry = 0 then retry else e.retry⟩) ::
      expected c (if e.id = [] then lastID else e.id)
        (if e.retry = 0 then retry else e.retry) frames

theorem readLine_blank (hfits : st.eventBytes + 1 ≤ c.maxEventBytes) :
    readLine c st [] = dispatch c { st with eventBytes := st.eventBytes + 1 } := by
  rw [readLine_fits (lineOk_of_ascii (by simp)) hfits]
  rfl

theorem readLine_keepalive (hfits : st.eventBytes + (keepalive.length + 1) ≤ c.maxEventBytes) :
    readLine c st keepalive =
      ({ st with eventBytes := st.eventBytes + (keepalive.length + 1) }, none) := by
  rw [readLine_fits (lineOk_of_ascii (forall_mem_of_all (by decide))) hfits, if_neg (by decide),
    if_pos (by decide)]

/-- The state after an event with this value. -/
def State.deliver (st : State α) (event : Event) (value : α) : State α :=
  { st.withHeader event with
    eventName := [], data := [], eventBytes := 0
    sent := st.sent ++
      [⟨(st.withHeader event).lastID, (st.withHeader event).eventName, value,
        (st.withHeader event).retry⟩] }

theorem readLines_event (hvalid : event.Valid) (hfresh : st.Fresh)
    (hfits : (written (Frame.event event).lines).length ≤ c.maxEventBytes) :
    match c.decode event.text with
    | some value => readLines c st (Frame.event event).lines = (st.deliver event value, none)
    | none => ∃ st', readLines c st (Frame.event event).lines = (st', some .decode) ∧
        st'.sent = st.sent := by
  have hone : (written [[]]).length = 1 := rfl
  have hne : written event.lines ≠ [] := by simp [written_eq_join (lines_ne_nil event)]
  have htext : trimLf (written event.lines) = event.text := by
    rw [trimLf_written (lines_ne_nil event), Event.lines, join_split]
  have hbytes := hfresh.eventBytes
  rw [Frame.lines, written_append, List.length_append] at hfits
  rw [Frame.lines, readLines_append_ok (readLines_contents hvalid (by omega)), readLines_cons,
    readLine_blank (by dsimp only; omega), dispatch, hfresh.data, List.nil_append, if_neg hne]
  simp only [htext]
  cases c.decode event.text with
  | none => exact ⟨_, rfl, rfl⟩
  | some value => rfl

theorem readLines_heartbeat (hfresh : st.Fresh)
    (hfits : (written Frame.heartbeat.lines).length ≤ c.maxEventBytes) :
    readLines c st Frame.heartbeat.lines = (st, none) := by
  obtain ⟨lastID, eventName, retry, data, eventBytes, sent⟩ := st
  obtain ⟨rfl, rfl, rfl⟩ : eventName = [] ∧ data = [] ∧ eventBytes = 0 :=
    ⟨hfresh.1, hfresh.2, hfresh.3⟩
  have hlength : (written Frame.heartbeat.lines).length = keepalive.length + 1 + 1 := rfl
  rw [Frame.lines, readLines_cons, readLine_keepalive (by dsimp only; omega)]
  dsimp only
  rw [readLines_cons, readLine_blank (by dsimp only; omega), dispatch]
  rfl

/-- A frame that can be read sends its message. -/
theorem readLines_frame (hvalid : frame.Valid) (hfresh : st.Fresh) (h : Readable c frame) :
    ∃ st', readLines c st frame.lines = (st', none) ∧ st'.Fresh ∧
      ∀ frames, st'.sent.map some ++ expected c st'.lastID st'.retry frames =
        st.sent.map some ++ expected c st.lastID st.retry (frame :: frames) := by
  cases frame with
  | event e =>
    obtain ⟨hfits, hdecode⟩ := h
    obtain ⟨value, hvalue⟩ := Option.isSome_iff_exists.mp hdecode
    have hread := readLines_event hvalid hfresh hfits
    rw [hvalue] at hread
    refine ⟨st.deliver e value, hread, ⟨rfl, rfl, rfl⟩, fun frames => ?_⟩
    simp +contextual [expected, hvalue, State.deliver, State.withHeader, hfresh.eventName]
  | heartbeat => exact ⟨st, readLines_heartbeat hfresh h, hfresh, fun frames => rfl⟩

/-- The blank line is counted as well. -/
theorem readLines_too_large {lines : List Bytes} (hlines : ∀ line ∈ lines, cr ∉ line ∧ line ≠ [])
    (h : c.maxEventBytes < st.eventBytes + (written (lines ++ [[]])).length) :
    ∃ st' err, readLines c st (lines ++ [[]]) = (st', some err) ∧ st'.sent = st.sent := by
  have hcounted := counted_readLines (c := c) st hlines
  rcases hread : readLines c st lines with ⟨st', _ | err⟩ <;> rw [hread] at hcounted
  · have hcount : st'.eventBytes = st.eventBytes + (written lines).length := hcounted.bytes rfl
    have hone : (written [[]]).length = 1 := rfl
    rw [written_append, List.length_append] at h
    have hblank : readLine c st' [] = ({ st' with eventBytes := st'.eventBytes + 1 },
        some .responseTooLarge) := by
      have htoken : ¬ maxTokenSize c ≤ ([] : Bytes).length := by
        simp only [List.length_nil]
        unfold maxTokenSize
        omega
      have hlarge : c.maxEventBytes < st'.eventBytes + 1 := by omega
      rw [readLine, if_neg htoken]
      simp [dropCR, hlarge]
    rw [readLines_append_ok hread, readLines_cons, hblank]
    exact ⟨_, _, rfl, hcounted.sent⟩
  · exact ⟨st', err, readLines_append_error hread _, hcounted.sent⟩

/-- A frame that cannot be read ends the loop, and sends nothing. -/
theorem readLines_frame_error (hvalid : frame.Valid) (hfresh : st.Fresh) (h : ¬ Readable c frame) :
    ∃ st' err, readLines c st frame.lines = (st', some err) ∧ st'.sent = st.sent := by
  cases frame with
  | event e =>
    by_cases hfits : (written (Frame.event e).lines).length ≤ c.maxEventBytes
    · have hnone : c.decode e.text = none := by
        rw [← Option.not_isSome_iff_eq_none]
        exact fun hsome => h ⟨hfits, hsome⟩
      have hread := readLines_event hvalid hfresh hfits
      rw [hnone] at hread
      obtain ⟨st', hread, hsent⟩ := hread
      exact ⟨st', _, hread, hsent⟩
    · refine readLines_too_large (fun line hline => ?_) ?_
      · exact ⟨(lineOk_of_mem_contents hvalid line hline).cr, ne_nil_of_mem_contents hline⟩
      · exact Nat.lt_of_lt_of_le (Nat.not_le.mp hfits) (Nat.le_add_left _ _)
  | heartbeat =>
    have hlines : Frame.heartbeat.lines = [keepalive] ++ [[]] := rfl
    rw [hlines]
    refine readLines_too_large (by decide) ?_
    exact Nat.lt_of_lt_of_le (Nat.not_le.mp h) (Nat.le_add_left _ _)

/-- The frames up to the first one that cannot be read send their messages. -/
theorem readLines_frames (hvalid : ∀ frame ∈ frames, frame.Valid) (hfresh : st.Fresh) :
    ((∀ frame ∈ frames, Readable c frame) →
      ∃ st', readLines c st (frames.flatMap Frame.lines) = (st', none) ∧ st'.Fresh ∧
        st'.sent.map some = st.sent.map some ++ expected c st.lastID st.retry frames) ∧
    ((¬ ∀ frame ∈ frames, Readable c frame) →
      ∃ st' err, readLines c st (frames.flatMap Frame.lines) = (st', some err) ∧
        st'.sent.map some <+: st.sent.map some ++ expected c st.lastID st.retry frames) := by
  induction frames generalizing st with
  | nil => exact ⟨fun _ => ⟨st, rfl, hfresh, by simp [expected]⟩, fun h => absurd (by simp) h⟩
  | cons frame frames ih =>
    rw [List.forall_mem_cons] at hvalid
    rw [List.forall_mem_cons, List.flatMap_cons]
    by_cases hread : Readable c frame
    · obtain ⟨st', hst', hfresh', hsent⟩ := readLines_frame hvalid.1 hfresh hread
      rw [readLines_append_ok hst', ← hsent frames]
      obtain ⟨hok, herror⟩ := ih hvalid.2 hfresh'
      exact ⟨fun h => hok h.2, fun h => herror fun hall => h ⟨hread, hall⟩⟩
    · obtain ⟨st', err, hst', hsent⟩ := readLines_frame_error hvalid.1 hfresh hread
      refine ⟨fun h => absurd h.1 hread, fun _ => ⟨st', err, readLines_append_error hst' _, ?_⟩⟩
      rw [hsent]
      exact List.prefix_append _ _

end Keelith.Sse

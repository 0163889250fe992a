import Keelith.Lib.Text

/-!
# Strings as bytes

A Go string that need not be valid UTF-8 is a list of bytes. The functions of `strings` and
`unicode/utf8` on it:

* `split`, `join`: `strings.Split` and `strings.Join` with a separator of one byte, that is, the
  list functions `splitOn` and `intercalate`;
* `cut`, `cutLast`: the parts around `strings.IndexByte` and `strings.LastIndexByte`;
* `containsAny`: `strings.ContainsAny` for ASCII characters;
* `trimSpace`: `strings.TrimSpace`, and `trimmed` and `blank`: it leaves the text as it is, or
  nothing of it;
* `utf8Valid`: `utf8.ValidString`, an automaton that reads byte by byte;
* `formatNat`, `parseInt`: `strconv.FormatInt` of a natural number and `strconv.ParseInt` for
  decimal `int64`.

`utf8Valid_append_ascii`: an ASCII byte is never inside an encoded character, so text is valid
exactly if the parts around the byte are; hence splitting and joining at ASCII separators keep
validity.
-/

namespace Keelith

/-- A Go string. -/
abbrev Bytes := List UInt8

namespace Bytes

/-- The bytes of ASCII characters. -/
def ascii (chars : List Char) : Bytes := chars.map Char.toUInt8

/-- `strings.Split(s, sep)`. -/
def split (sep : UInt8) (s : Bytes) : List Bytes := s.splitOn sep

/-- `strings.Join(parts, sep)`. -/
def join (sep : UInt8) (parts : List Bytes) : Bytes := [sep].intercalate parts

/-- `strings.Cut`: the parts before and after the first occurrence of a byte. -/
def cut (c : UInt8) : Bytes → Option (Bytes × Bytes)
  | [] => none
  | b :: rest => if b = c then some ([], rest) else (cut c rest).map fun (before, after) =>
    (b :: before, after)

/-- The parts before and after the last occurrence of a byte. -/
def cutLast (c : UInt8) : Bytes → Option (Bytes × Bytes)
  | [] => none
  | b :: rest =>
    match cutLast c rest with
    | some (before, after) => some (b :: before, after)
    | none => if b = c then some ([], rest) else none

/-- A property of all bytes of a fixed text, to be evaluated. -/
theorem forall_mem_of_all {p : UInt8 → Prop} [DecidablePred p] {s : Bytes}
    (h : s.all (fun b => decide (p b)) = true) : ∀ b ∈ s, p b := by
  simpa using h

/-- `strings.ContainsAny`. -/
def containsAny (s chars : Bytes) : Bool := s.any fun b => chars.contains b

/-- The encodings of the characters that `unicode.IsSpace` accepts. -/
def spaces : List Bytes :=
  [[9], [10], [11], [12], [13], [0x20], [0xc2, 0x85], [0xc2, 0xa0], [0xe1, 0x9a, 0x80],
    [0xe2, 0x80, 0x80], [0xe2, 0x80, 0x81], [0xe2, 0x80, 0x82], [0xe2, 0x80, 0x83],
    [0xe2, 0x80, 0x84], [0xe2, 0x80, 0x85], [0xe2, 0x80, 0x86], [0xe2, 0x80, 0x87],
    [0xe2, 0x80, 0x88], [0xe2, 0x80, 0x89], [0xe2, 0x80, 0x8a], [0xe2, 0x80, 0xa8],
    [0xe2, 0x80, 0xa9], [0xe2, 0x80, 0xaf], [0xe2, 0x81, 0x9f], [0xe3, 0x80, 0x80]]

/-- `strings.TrimSpace(s) == s`. -/
def trimmed (s : Bytes) : Bool :=
  spaces.all fun space => !space.isPrefixOf s && !space.isSuffixOf s

/-- The text without so many spaces at its start. -/
def trimLeft : Nat → Bytes → Bytes
  | 0, s => s
  | n + 1, s =>
    match spaces.find? fun space => space.isPrefixOf s with
    | some space => trimLeft n (s.drop space.length)
    | none => s

/-- The text without so many spaces at its end. -/
def trimRight : Nat → Bytes → Bytes
  | 0, s => s
  | n + 1, s =>
    match spaces.find? fun space => space.isSuffixOf s with
    | some space => trimRight n (s.take (s.length - space.length))
    | none => s

/-- `strings.TrimSpace`. -/
def trimSpace (s : Bytes) : Bytes := trimRight s.length (trimLeft s.length s)

/-- `strings.TrimSpace(s) == ""`. -/
def blank (s : Bytes) : Bool := trimLeft s.length s == []

/-- `unicode.IsControl` accepts one of the characters. -/
def hasControl : Bytes → Bool
  | [] => false
  | b :: s => b < 0x20 || b == 0x7f || b == 0xc2 && s.head?.any (fun b => 0x80 ≤ b && b < 0xa0) ||
    hasControl s

/-! ## Splitting and joining -/

section Split

variable {sep : UInt8}

theorem split_ne_nil (s : Bytes) : split sep s ≠ [] := List.splitOn_ne_nil _ _

@[simp] theorem join_split (s : Bytes) : join sep (split sep s) = s := List.intercalate_splitOn _

variable {parts : List Bytes} {s : Bytes} {c : UInt8}

theorem split_join (hsep : ∀ part ∈ parts, sep ∉ part) (hne : parts ≠ []) :
    split sep (join sep parts) = parts := List.splitOn_intercalate _ hsep hne

theorem split_of_notMem (h : sep ∉ s) : split sep s = [s] := List.splitOn_eq_singleton h

theorem split_append_sep (s t : Bytes) : split sep (s ++ sep :: t) = split sep s ++ split sep t :=
  List.splitOn_append_cons_self s t

@[simp] theorem join_nil : join sep [] = [] := rfl

@[simp] theorem join_singleton (s : Bytes) : join sep [s] = s := by simp [join]

theorem join_cons (h : parts ≠ []) : join sep (s :: parts) = s ++ sep :: join sep parts := by
  cases parts with
  | nil => exact absurd rfl h
  | cons t parts => simp [join]

theorem join_append {parts' : List Bytes} (h : parts ≠ []) (h' : parts' ≠ []) :
    join sep (parts ++ parts') = join sep parts ++ sep :: join sep parts' := by
  induction parts with
  | nil => exact absurd rfl h
  | cons s parts ih =>
    cases parts with
    | nil => simp [join_cons h']
    | cons t parts =>
      have hcons : t :: parts ≠ [] := List.cons_ne_nil _ _
      rw [List.cons_append, join_cons (by simp), ih hcons, join_cons hcons, List.append_assoc,
        List.cons_append]

/-- The segments of joined parts are those of the parts. -/
theorem split_join_eq_flatMap (h : parts ≠ []) :
    split sep (join sep parts) = parts.flatMap (split sep) := by
  induction parts with
  | nil => exact absurd rfl h
  | cons s parts ih =>
    by_cases hne : parts = []
    · simp [hne]
    · rw [join_cons hne, split_append_sep, ih hne, List.flatMap_cons]

theorem mem_join_of_mem {b : UInt8} {part : Bytes} (hpart : part ∈ parts) (hb : b ∈ part) :
    b ∈ join sep parts := by
  induction parts with
  | nil => cases hpart
  | cons s parts ih =>
    by_cases hne : parts = []
    · subst hne
      rwa [join_singleton, ← List.mem_singleton.mp hpart]
    · rw [join_cons hne, List.mem_append, List.mem_cons]
      rcases List.mem_cons.mp hpart with rfl | hpart
      · exact .inl hb
      · exact .inr (.inr (ih hpart))

variable {part : Bytes}

theorem mem_of_mem_split {b : UInt8} (hpart : part ∈ split sep s) (hb : b ∈ part) : b ∈ s :=
  @join_split sep s ▸ mem_join_of_mem hpart hb

theorem notMem_of_mem_split (h : part ∈ split sep s) : sep ∉ part := by
  induction s generalizing part with
  | nil =>
    rw [split_of_notMem (by simp), List.mem_singleton] at h
    simp [h]
  | cons b s ih =>
    rw [split, List.splitOn_cons_eq_if_modifyHead] at h
    split at h
    next =>
      rcases List.mem_cons.mp h with rfl | h
      · simp
      · exact ih h
    next hb =>
      have hne : b ≠ sep := by simpa using hb
      obtain ⟨head, tail, heq⟩ := List.exists_cons_of_ne_nil (List.splitOn_ne_nil sep s)
      rw [heq] at h
      rcases List.mem_cons.mp h with rfl | h
      · have hhead : sep ∉ head := ih (by simp [split, heq])
        simp [hhead, hne.symm]
      · exact ih (by simp [split, heq, h])

theorem cut_append {before : Bytes} (h : c ∉ before) (after : Bytes) :
    cut c (before ++ c :: after) = some (before, after) := by
  induction before with
  | nil => simp [cut]
  | cons b before ih =>
    rw [List.mem_cons, not_or] at h
    rw [List.cons_append, cut, if_neg (Ne.symm h.1), ih h.2, Option.map_some]

theorem cutLast_of_notMem (h : c ∉ s) : cutLast c s = none := by
  induction s with
  | nil => rfl
  | cons b s ih =>
    rw [List.mem_cons, not_or] at h
    simp [cutLast, ih h.2, Ne.symm h.1]

theorem cutLast_append {before after : Bytes} (h : c ∉ after) :
    cutLast c (before ++ c :: after) = some (before, after) := by
  induction before with
  | nil => simp [cutLast, cutLast_of_notMem h]
  | cons b before ih => simp [cutLast, ih]

theorem containsAny_eq_false_iff {chars : Bytes} :
    containsAny s chars = false ↔ ∀ b ∈ s, b ∉ chars := by
  simp [containsAny]

end Split

/-! ## UTF-8 -/

/-- What `utf8.ValidString` expects next: a first byte, or the remaining bytes of a character, of
which the next one is in a range. -/
inductive Utf8State where
  | first
  | rest (lo hi : UInt8) (more : Nat)
  deriving DecidableEq

/-- One byte; `none` is invalid text. The ranges are those of the accept table of `unicode/utf8`. -/
def utf8Step : Utf8State → UInt8 → Option Utf8State
  | .first, b =>
    if b < 0x80 then some .first
    else if b < 0xc2 then none
    else if b < 0xe0 then some (.rest 0x80 0xbf 0)
    else if b = 0xe0 then some (.rest 0xa0 0xbf 1)
    else if b = 0xed then some (.rest 0x80 0x9f 1)
    else if b < 0xf0 then some (.rest 0x80 0xbf 1)
    else if b = 0xf0 then some (.rest 0x90 0xbf 2)
    else if b < 0xf4 then some (.rest 0x80 0xbf 2)
    else if b = 0xf4 then some (.rest 0x80 0x8f 2)
    else none
  | .rest lo hi more, b =>
    if 0x80 ≤ b && lo ≤ b && b ≤ hi then
      match more with
      | 0 => some .first
      | more + 1 => some (.rest 0x80 0xbf more)
    else none

/-- The state after some bytes. -/
def utf8Run (s : Bytes) (state : Utf8State) : Option Utf8State := s.foldlM utf8Step state

/-- `utf8.ValidString`. -/
def utf8Valid (s : Bytes) : Bool := utf8Run s .first == some .first

theorem utf8Run_append (s t : Bytes) (state : Utf8State) :
    utf8Run (s ++ t) state = (utf8Run s state).bind (utf8Run t) := by
  rw [utf8Run, List.foldlM_append]
  rfl

theorem utf8Run_cons (b : UInt8) (s : Bytes) (state : Utf8State) :
    utf8Run (b :: s) state = (utf8Step state b).bind (utf8Run s) := by
  rfl

variable {b : UInt8}

/-- An ASCII byte is a character, and no part of another one. -/
theorem utf8Step_ascii (hb : b < 0x80) (state : Utf8State) :
    utf8Step state b = if state = .first then some .first else none := by
  cases state with
  | first => simp [utf8Step, hb]
  | rest lo hi more =>
    have : ¬ 0x80 ≤ b := UInt8.not_le.mpr hb
    simp [utf8Step, this]

theorem utf8Run_ascii_cons (hb : b < 0x80) (t : Bytes) (state : Utf8State) :
    utf8Run (b :: t) state = if state = .first then utf8Run t .first else none := by
  rw [utf8Run_cons, utf8Step_ascii hb]
  split <;> rfl

@[simp] theorem utf8Valid_nil : utf8Valid [] = true := rfl

theorem utf8Valid_append_ascii (hb : b < 0x80) (s t : Bytes) :
    utf8Valid (s ++ b :: t) = (utf8Valid s && utf8Valid t) := by
  unfold utf8Valid
  rw [utf8Run_append]
  cases hs : utf8Run s .first with
  | none => simp
  | some state =>
    rw [Option.bind_some, utf8Run_ascii_cons hb]
    by_cases hstate : state = .first <;> simp [hstate]

theorem utf8Valid_ascii_cons (hb : b < 0x80) (t : Bytes) : utf8Valid (b :: t) = utf8Valid t := by
  simpa using utf8Valid_append_ascii hb [] t

/-- Parts joined at an ASCII separator. -/
theorem utf8Valid_join {sep : UInt8} (hsep : sep < 0x80) (parts : List Bytes) :
    utf8Valid (join sep parts) = parts.all utf8Valid := by
  induction parts with
  | nil => rfl
  | cons s parts ih =>
    by_cases hne : parts = []
    · simp [hne]
    · rw [join_cons hne, utf8Valid_append_ascii hsep, ih, List.all_cons]

theorem utf8Valid_of_mem_split {sep : UInt8} (hsep : sep < 0x80) (hs : utf8Valid s = true)
    (hpart : part ∈ split sep s) : utf8Valid part = true := by
  rw [← @join_split sep s, utf8Valid_join hsep] at hs
  exact List.all_eq_true.mp hs part hpart

/-! ## Decimal numbers -/

/-- `strconv.FormatInt(n, 10)` for a natural number. -/
def formatNat (n : Nat) : Bytes := ascii (Nat.toDigits 10 n)

/-- A decimal digit. -/
def isDigit (b : UInt8) : Bool := '0'.toUInt8 ≤ b && b ≤ '9'.toUInt8

/-- The number of a text of digits, or `none`. -/
def parseDigits (s : Bytes) : Option Nat :=
  if s.isEmpty || !s.all isDigit then none
  else some (s.foldl (fun n b => 10 * n + (b.toNat - '0'.toNat)) 0)

/-- `strconv.ParseInt(s, 10, 64)`; `none` is a syntax or range error. -/
def parseInt (s : Bytes) : Option Int :=
  match s with
  | [] => none
  | b :: rest =>
    if b = '-'.toUInt8 then (parseDigits rest).bind fun n => if n ≤ 2 ^ 63 then some (-n) else none
    else (parseDigits (if b = '+'.toUInt8 then rest else s)).bind fun n =>
      if n < 2 ^ 63 then some n else none

theorem toUInt8_of_isDigit {c : Char} (h : c.isDigit = true) :
    c.toUInt8.toNat = c.toNat ∧ isDigit c.toUInt8 = true := by
  simp only [Char.isDigit, Bool.and_eq_true, decide_eq_true_eq] at h
  have hlow : 48 ≤ c.toNat := h.1
  have hhigh : c.toNat ≤ 57 := h.2
  have hnat : c.toUInt8.toNat = c.toNat := by
    exact Nat.mod_eq_of_lt (by change c.toNat < 256; omega)
  refine ⟨hnat, ?_⟩
  rw [isDigit, Bool.and_eq_true, decide_eq_true_eq, decide_eq_true_eq, UInt8.le_iff_toNat_le,
    UInt8.le_iff_toNat_le, hnat]
  exact ⟨hlow, hhigh⟩

theorem isDigit_of_mem_formatNat {n : Nat} : ∀ b ∈ formatNat n, isDigit b = true := by
  rw [formatNat, ascii, List.forall_mem_map]
  exact fun c hc => (toUInt8_of_isDigit (Nat.isDigit_of_mem_toDigits (by decide) (by decide) hc)).2

theorem formatNat_ne_nil (n : Nat) : formatNat n ≠ [] := by
  simp [formatNat, ascii]

theorem parseDigits_formatNat (n : Nat) : parseDigits (formatNat n) = some n := by
  have hdigits : ∀ c ∈ Nat.toDigits 10 n, c.toUInt8.toNat = c.toNat ∧ isDigit c.toUInt8 = true :=
    fun c hc => toUInt8_of_isDigit (Nat.isDigit_of_mem_toDigits (by decide) (by decide) hc)
  have hvalue : ∀ (l : List Char) (k : Nat),
      (∀ c ∈ l, c.toUInt8.toNat = c.toNat ∧ isDigit c.toUInt8 = true) →
      (ascii l).foldl (fun n b => 10 * n + (b.toNat - '0'.toNat)) k = Nat.ofDigitChars 10 l k := by
    intro l
    induction l with
    | nil => exact fun k _ => rfl
    | cons c l ih =>
      intro k h
      rw [List.forall_mem_cons] at h
      rw [ascii, List.map_cons, List.foldl_cons, h.1.1]
      exact ih _ h.2
  have hall : (formatNat n).all isDigit = true := List.all_eq_true.mpr isDigit_of_mem_formatNat
  have hne : (formatNat n).isEmpty = false := List.isEmpty_eq_false_iff.mpr (formatNat_ne_nil n)
  rw [parseDigits, hne, hall, formatNat, hvalue _ _ hdigits, Nat.ofDigitChars_ten_toDigits]
  rfl

/-- A number that is not followed by a digit is read back. -/
theorem formatNat_delimited {m n : Nat} {c : UInt8} (hc : isDigit c = false) {x y : Bytes}
    (h : formatNat m ++ c :: x = formatNat n ++ c :: y) : m = n ∧ x = y := by
  have hnot (k : Nat) : c ∉ formatNat k := by
    intro hmem
    rw [isDigit_of_mem_formatNat c hmem] at hc
    cases hc
  obtain ⟨hdigits, hxy⟩ := append_separator_inj (hnot m) (hnot n) h
  have hsome := congrArg parseDigits hdigits
  rw [parseDigits_formatNat, parseDigits_formatNat] at hsome
  exact ⟨Option.some.inj hsome, hxy⟩

theorem parseInt_formatNat {n : Nat} (h : n < 2 ^ 63) :
    parseInt (formatNat n) = some (n : Int) := by
  obtain ⟨b, rest, hcons⟩ := List.exists_cons_of_ne_nil (formatNat_ne_nil n)
  have hmem : b ∈ formatNat n := hcons ▸ List.mem_cons_self
  have hb : isDigit b = true := isDigit_of_mem_formatNat b hmem
  have hminus : b ≠ '-'.toUInt8 := fun heq => absurd (heq ▸ hb) (by decide)
  have hplus : b ≠ '+'.toUInt8 := fun heq => absurd (heq ▸ hb) (by decide)
  have hparse := parseDigits_formatNat n
  rw [hcons] at hparse ⊢
  simp only [parseInt, if_neg hminus, if_neg hplus, hparse, Option.bind_some, if_pos h]

end Bytes

end Keelith

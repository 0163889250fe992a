import Keelith.Http.Expansion

/-!
# Values of variables and their patterns

`Match` splits the escaped path at its slashes, and decodes the segments afterwards. A segment that
`*` or a literal takes can hold an escaped slash; in the value of a variable with several segments
it becomes a separator. So the value has other segments than the path: `Expand` may refuse it. `**`
keeps escaped slashes, but alone it takes an empty path, which `Expand` refuses.

`matchPath_respects_iff`: the value of a variable fits its pattern, and expands to a path with the
same values, exactly if the pattern also takes the segments of the path in which these escaped
slashes are plain ones (`plainParts`).

`Decodes` is `decodeBytes` as a relation, to do induction over a decoded segment.
-/

namespace Keelith.Http

open Bytes

/-! ## Decoding as a relation -/

/-- `decodeBytes` accepts the first string and gives the second one. -/
inductive Decodes (preserveSlash : Bool) : Bytes → Bytes → Prop where
  | nil : Decodes preserveSlash [] []
  | byte {b : UInt8} {raw text : Bytes} (hb : b ≠ percent)
      (hrest : Decodes preserveSlash raw text) :
      Decodes preserveSlash (b :: raw) (b :: text)
  | escape {high low h l : UInt8} {raw text : Bytes} (hhigh : fromHex high = some h)
      (hlow : fromHex low = some l)
      (hkept : (preserveSlash && (h <<< 4 ||| l) == slash) = false)
      (hrest : Decodes preserveSlash raw text) :
      Decodes preserveSlash (percent :: high :: low :: raw) ((h <<< 4 ||| l) :: text)
  | kept {high low h l : UInt8} {raw text : Bytes} (hhigh : fromHex high = some h)
      (hlow : fromHex low = some l)
      (hkept : (preserveSlash && (h <<< 4 ||| l) == slash) = true)
      (hrest : Decodes preserveSlash raw text) :
      Decodes preserveSlash (percent :: high :: low :: raw) (percent :: high :: low :: text)

section

variable {preserveSlash : Bool} {v : Variable} {rawParts rest : List Bytes}
  {segments : List Segment} {raw text : Bytes}

theorem decodes_of_decodeBytes (h : decodeBytes preserveSlash raw = some text) :
    Decodes preserveSlash raw text := by
  fun_induction decodeBytes preserveSlash raw generalizing text with
  | case1 =>
    cases h
    exact .nil
  | case2 high low rest h' l hlow hhigh ih =>
    obtain ⟨text', htext, rfl⟩ := Option.map_eq_some_iff.mp h
    split
    next hkept => exact .kept hhigh hlow hkept (ih htext)
    next hkept => exact .escape hhigh hlow (by simpa using hkept) (ih htext)
  | case3 | case4 => cases h
  | case5 b rest hb ih =>
    obtain ⟨text', htext, rfl⟩ := Option.map_eq_some_iff.mp h
    exact .byte hb (ih htext)

theorem Decodes.decodeBytes (h : Decodes preserveSlash raw text) :
    decodeBytes preserveSlash raw = some text := by
  induction h with
  | nil => rfl
  | byte hb _ ih => rw [decodeBytes_cons hb, ih, Option.map_some]
  | escape hhigh hlow hkept _ ih | kept hhigh hlow hkept _ ih =>
    simp [Http.decodeBytes, hhigh, hlow, hkept, ih]

theorem decodePathSegment_eq_ok :
    decodePathSegment raw preserveSlash = .ok text ↔ Decodes preserveSlash raw text ∧
      utf8Valid text = true := by
  have hiff : Decodes preserveSlash raw text ↔ Http.decodeBytes preserveSlash raw = some text :=
    ⟨Decodes.decodeBytes, decodes_of_decodeBytes⟩
  rw [hiff, decodePathSegment]
  cases Http.decodeBytes preserveSlash raw with
  | none => simp
  | some result =>
    split <;> grind

theorem Decodes.slash_notMem (h : Decodes true raw text) (hslash : slash ∉ raw) : slash ∉ text := by
  induction h with
  | nil => exact hslash
  | byte _ _ ih =>
    rw [List.mem_cons, not_or] at hslash ⊢
    exact ⟨hslash.1, ih hslash.2⟩
  | escape _ _ hkept _ ih =>
    rw [List.mem_cons, not_or]
    exact ⟨fun heq => by simp [← heq] at hkept, ih fun hmem => hslash (by simp [hmem])⟩
  | kept _ _ _ _ ih =>
    simp only [List.mem_cons, not_or] at hslash ⊢
    exact ⟨hslash.1, hslash.2.1, hslash.2.2.1, ih hslash.2.2.2⟩

theorem Decodes.nil_iff (h : Decodes preserveSlash raw text) : raw = [] ↔ text = [] := by
  cases h <;> simp

/-- Without a slash in the text, nothing is kept. -/
theorem Decodes.keep (h : Decodes false raw text) (hslash : slash ∉ text) :
    Decodes true raw text := by
  induction h with
  | nil => exact .nil
  | byte hb _ ih => exact .byte hb (ih fun hmem => hslash (List.mem_cons_of_mem _ hmem))
  | escape hhigh hlow _ _ ih =>
    rw [List.mem_cons, not_or] at hslash
    refine .escape hhigh hlow ?_ (ih hslash.2)
    simpa using fun heq => hslash.1 heq.symm
  | kept _ _ hkept => cases hkept

/-! ## Escaped slashes as plain ones -/

/-- The two digits escape a slash. -/
def escapesSlash (high low : UInt8) : Bool :=
  match fromHex high, fromHex low with
  | some h, some l => (h <<< 4 ||| l) == slash
  | _, _ => false

/-- The path segment with its escaped slashes as plain ones. -/
def plainSlashes : Bytes → Bytes
  | [] => []
  | b :: rest =>
    if b = percent then
      match rest with
      | high :: low :: rest =>
        if escapesSlash high low then slash :: plainSlashes rest
        else b :: high :: low :: plainSlashes rest
      | _ => b :: rest
    else b :: plainSlashes rest

variable {b : UInt8} {valueParts : List Bytes} {t : Template} {value : Bytes}
  {pattern : List PatternSegment}

theorem plainSlashes_cons (hb : b ≠ percent) (rest : Bytes) :
    plainSlashes (b :: rest) = b :: plainSlashes rest := by
  rw [plainSlashes.eq_def]
  simp [hb]

theorem split_slash_cons (hb : b ≠ slash) (s : Bytes) :
    split slash (b :: s) = (split slash s).modifyHead (b :: ·) := by
  rw [split, List.splitOn_cons_eq_if_modifyHead, if_neg (by simpa using hb)]
  rfl

theorem split_slash_slash (s : Bytes) : split slash (slash :: s) = [] :: split slash s := by
  simpa [split_of_notMem] using @split_append_sep slash [] s

theorem ne_slash_of_fromHex {r h : UInt8} (hr : fromHex r = some h) : r ≠ slash := by
  rintro rfl
  have hnone : fromHex slash = none := by decide
  cases hr

theorem forall₂_modifyHead {α β : Type} {R : α → β → Prop} {f : α → α} {g : β → β} {l : List α}
    {l' : List β} (h : List.Forall₂ R l l') (hhead : ∀ a b, R a b → R (f a) (g b)) :
    List.Forall₂ R (l.modifyHead f) (l'.modifyHead g) := by
  cases h with
  | nil => exact .nil
  | cons hab htail => exact .cons (hhead _ _ hab) htail

/-- The plain segments of a path segment decode to the segments of its text. -/
theorem Decodes.split (h : Decodes false raw text) (hslash : slash ∉ raw) :
    List.Forall₂ (Decodes false) (Bytes.split slash (plainSlashes raw))
      (Bytes.split slash text) := by
  have hpercent : percent ≠ slash := by decide
  induction h with
  | nil =>
    rw [plainSlashes, split_of_notMem (by simp)]
    exact .cons .nil .nil
  | byte hb _ ih =>
    rw [List.mem_cons, not_or] at hslash
    have hne := Ne.symm hslash.1
    rw [plainSlashes_cons hb, split_slash_cons hne, split_slash_cons hne]
    exact forall₂_modifyHead (ih hslash.2) fun _ _ => .byte hb
  | @escape high low h l raw text hhigh hlow hkept _ ih =>
    have hrest := ih fun hmem => hslash (by simp [hmem])
    by_cases hvalue : (h <<< 4 ||| l) = slash
    · have hescapes : escapesSlash high low = true := by simp [escapesSlash, hhigh, hlow, hvalue]
      rw [plainSlashes]
      simp only [hescapes, if_true]
      rw [hvalue, split_slash_slash, split_slash_slash]
      exact .cons .nil hrest
    · have hescapes : escapesSlash high low = false := by simp [escapesSlash, hhigh, hlow, hvalue]
      rw [plainSlashes, if_pos rfl]
      simp only [hescapes, Bool.false_eq_true, if_false]
      rw [split_slash_cons hpercent, split_slash_cons (ne_slash_of_fromHex hhigh),
        split_slash_cons (ne_slash_of_fromHex hlow), split_slash_cons hvalue,
        List.modifyHead_modifyHead, List.modifyHead_modifyHead]
      exact forall₂_modifyHead hrest fun _ _ hab => .escape hhigh hlow hkept hab
  | kept _ _ hkept => cases hkept

theorem IsLiteral.decoded_ne_nil (h : IsLiteral raw) : decodedLiteral raw ≠ [] := by
  obtain ⟨hdecodes, -⟩ := decodePathSegment_eq_ok.mp h.decode
  exact fun hnil => h.ne_nil (hdecodes.nil_iff.mpr hnil)

/-! ## Patterns and segments -/

/-- The pattern takes the segments one by one: a literal its text, `*` one segment, `**` the rest.
None is empty. -/
def fits : List PatternSegment → List Bytes → Bool
  | [], segments => segments.isEmpty
  | .literal _ :: _, [] => false
  | .literal raw :: pattern, segment :: segments =>
    segment == decodedLiteral raw && fits pattern segments
  | .single :: _, [] => false
  | .single :: pattern, segment :: segments => segment != [] && fits pattern segments
  | .multi :: pattern, segments => segments.all (· != []) && fits pattern []

/-- The segments of a path that a pattern took, with the escaped slashes as plain ones where the
value has a slash for them. `**` keeps escaped slashes, and an empty segment is an empty rest. -/
def plainParts : List PatternSegment → List Bytes → List Bytes
  | .multi :: _, rawParts => if rawParts = [[]] then [] else rawParts
  | _ :: pattern, raw :: rawParts => split slash (plainSlashes raw) ++ plainParts pattern rawParts
  | _, _ => []

/-- The pattern takes exactly these segments, and none is empty. -/
def Variable.takes (v : Variable) (rawParts : List Bytes) : Bool :=
  rawParts.all (· != []) &&
    match matchPattern v v.pattern rawParts with
    | .ok (_, []) => true
    | _ => false

/-- The condition on a variable and the segments that it takes. -/
def Variable.plain (v : Variable) (rawParts : List Bytes) : Bool :=
  plainParts v.pattern rawParts != [] && v.takes (plainParts v.pattern rawParts)

variable {parts : List Bytes}

/-- `Expand` accepts the values that fit, and writes a segment for each of theirs. -/
theorem expandPattern_isOk (hpattern : PatternOk pattern) (h : fits pattern parts = true) :
    ∃ expanded, expandPattern v value pattern parts = .ok expanded ∧
      expanded.length = parts.length := by
  induction hpattern generalizing parts with
  | nil =>
    rw [fits, List.isEmpty_iff] at h
    exact ⟨[], by rw [h, expandPattern], by rw [h]⟩
  | literal _ _ ih =>
    cases parts with
    | nil => cases h
    | cons part parts =>
      rw [fits, Bool.and_eq_true, beq_iff_eq] at h
      obtain ⟨expanded, hexpanded, hlength⟩ := ih h.2
      exact ⟨_, by rw [expandPattern, if_neg (not_not.mpr h.1), hexpanded, ok_bind], by
        simp [hlength]⟩
  | single _ ih =>
    cases parts with
    | nil => cases h
    | cons part parts =>
      rw [fits, Bool.and_eq_true, bne_iff_ne] at h
      obtain ⟨expanded, hexpanded, hlength⟩ := ih h.2
      exact ⟨_, by rw [expandPattern, if_neg h.1, hexpanded, ok_bind], by simp [hlength]⟩
  | multi =>
    simp only [fits, Bool.and_eq_true, List.all_eq_true, bne_iff_ne] at h
    have hexpanded := (@expandRest_eq_ok parts _ v value).mpr ⟨h.1, rfl⟩
    exact ⟨parts.map encodePathSegment, by simp [expandPattern, hexpanded], List.length_map _⟩

/-- A path segment without an escaped slash, and its text. -/
def PlainPart (raw text : Bytes) : Prop := Decodes false raw text ∧ slash ∉ text ∧
    utf8Valid text = true

/-- A path segment of `**`, and its text. -/
def RestPart (raw text : Bytes) : Prop := Decodes true raw text ∧ utf8Valid text = true

theorem PlainPart.restPart (h : PlainPart raw text) : RestPart raw text :=
  ⟨h.1.keep h.2.1, h.2.2⟩

theorem plainParts_split (h : decodePathSegment raw false = .ok text) (hslash : slash ∉ raw) :
    List.Forall₂ PlainPart (split slash (plainSlashes raw)) (split slash text) := by
  obtain ⟨hdecodes, hvalid⟩ := decodePathSegment_eq_ok.mp h
  have hmem : ∀ part ∈ split slash text, slash ∉ part ∧ utf8Valid part = true := fun part hpart =>
    ⟨notMem_of_mem_split hpart, utf8Valid_of_mem_split (by decide) hvalid hpart⟩
  have hflip := List.Forall₂.flip (R := flip (Decodes false)) (hdecodes.split hslash)
  exact ((List.forall₂_and_left _ _).mpr ⟨hmem, hflip⟩).flip.imp fun _ _ h => ⟨h.2, h.1⟩

variable {texts : List Bytes}

theorem decodeParts_eq_ok :
    decodeParts parts = .ok texts ↔ (∀ part ∈ parts, part ≠ []) ∧
      List.Forall₂ RestPart parts texts := by
  induction parts generalizing texts with
  | nil =>
    simp only [decodeParts, Except.ok.injEq, List.not_mem_nil, false_implies,
      implies_true, true_and, List.forall₂_nil_left_iff]
    exact eq_comm
  | cons part parts ih =>
    rw [decodeParts, guard_eq_ok, bind_eq_ok, List.forall_mem_cons]
    constructor
    · rintro ⟨hne, text, htext, h⟩
      obtain ⟨rest, hrest, hcons⟩ := bind_eq_ok.mp h
      obtain rfl : text :: rest = texts := Except.ok.inj hcons
      obtain ⟨hparts, hall⟩ := ih.mp hrest
      exact ⟨⟨hne, hparts⟩, .cons (decodePathSegment_eq_ok.mp htext) hall⟩
    · rintro ⟨⟨hne, hparts⟩, hall⟩
      cases hall with
      | cons htext hall =>
        exact ⟨hne, _, decodePathSegment_eq_ok.mpr htext, by rw [ih.mpr ⟨hparts, hall⟩, ok_bind]⟩

theorem fits_cons {segment : PatternSegment} (hsegment : segment ≠ .multi) :
    fits (segment :: pattern) (text :: texts) = (fits [segment] [text] && fits pattern texts) := by
  cases segment with
  | multi => exact absurd rfl hsegment
  | literal | single => simp [fits]

theorem fits_ne_nil {segment : PatternSegment} (hpattern : PatternOk (segment :: pattern))
    (h : fits [segment] [text] = true) : text ≠ [] := by
  cases hpattern with
  | literal hraw =>
    obtain rfl : text = decodedLiteral _ := by simpa [fits] using h
    exact hraw.decoded_ne_nil
  | single | multi => simpa [fits] using h

/-- What a pattern takes first, if that is a literal or `*`: one segment, and its text is the
value. -/
theorem matchPattern_cons {segment : PatternSegment} (hsegment : segment ≠ .multi) :
    matchPattern v (segment :: pattern) rawParts = .ok (valueParts, rest) ↔
      ∃ part parts text tail, rawParts = part :: parts ∧ valueParts = text :: tail ∧
        decodePathSegment part false = .ok text ∧ fits [segment] [text] = true ∧
        matchPattern v pattern parts = .ok (tail, rest) := by
  cases rawParts with
  | nil => cases segment <;> simp [matchPattern] at hsegment ⊢
  | cons part parts =>
    constructor
    · intro h
      cases segment with
      | multi => exact absurd rfl hsegment
      | literal raw =>
        obtain ⟨_, hliteral, h⟩ := bind_eq_ok.mp h
        obtain ⟨text, htext, hguard⟩ := bind_eq_ok.mp hliteral
        obtain rfl : text = decodedLiteral raw := not_not.mp (guard_eq_ok.mp hguard).1
        obtain ⟨⟨tail, left⟩, htail, ⟨⟩⟩ := bind_eq_ok.mp h
        exact ⟨part, parts, _, tail, rfl, rfl, htext, by simp [fits], htail⟩
      | single =>
        obtain ⟨hne, h⟩ := guard_eq_ok.mp h
        obtain ⟨text, htext, h⟩ := bind_eq_ok.mp h
        obtain ⟨⟨tail, left⟩, htail, ⟨⟩⟩ := bind_eq_ok.mp h
        have hnil := (decodePathSegment_eq_ok.mp htext).1.nil_iff
        exact ⟨part, parts, text, tail, rfl, rfl, htext, by simpa [fits, ← hnil] using hne, htail⟩
    · rintro ⟨_, _, text, tail, ⟨⟩, rfl, htext, hfits, htail⟩
      have hnil := (decodePathSegment_eq_ok.mp htext).1.nil_iff
      cases segment with
      | multi => exact absurd rfl hsegment
      | literal | single => simp_all [matchPattern, matchLiteral, fits]

/-- The literals and `*` of a pattern. -/
def fixedCount (pattern : List PatternSegment) : Nat := pattern.countP (· != .multi)

/-- A pattern fits the texts of path segments exactly if `Match` takes the segments. The segments
for literals and `*` have no escaped slashes; for `**` there may be some. -/
theorem fits_iff_matchPattern (v : Variable) (hpattern : PatternOk pattern)
    {plain plainTexts restTexts : List Bytes} (hplain : List.Forall₂ PlainPart plain plainTexts)
    (hrest : List.Forall₂ RestPart rest restTexts) (hcount : fixedCount pattern ≤ plain.length) :
    fits pattern (plainTexts ++ restTexts) = true ↔
      (∀ part ∈ plain ++ rest, part ≠ []) ∧
        ∃ valueParts, matchPattern v pattern (plain ++ rest) = .ok (valueParts, []) := by
  induction hpattern generalizing plain plainTexts with
  | nil =>
    rw [fits, List.isEmpty_iff, List.append_eq_nil_iff]
    constructor
    · rintro ⟨rfl, rfl⟩
      obtain rfl := List.forall₂_nil_right_iff.mp hplain
      obtain rfl := List.forall₂_nil_right_iff.mp hrest
      exact ⟨by simp, [], rfl⟩
    · rintro ⟨-, valueParts, hmatch⟩
      have hnil : plain ++ rest = [] := (Prod.mk.inj (Except.ok.inj hmatch)).2
      obtain ⟨rfl, rfl⟩ := List.append_eq_nil_iff.mp hnil
      exact ⟨List.forall₂_nil_left_iff.mp hplain, List.forall₂_nil_left_iff.mp hrest⟩
  | literal _ hrest ih | single hrest ih =>
    cases hplain with
    | nil => simp [fixedCount] at hcount
    | @cons part text plain plainTexts hpart hplain =>
      have hdecode : decodePathSegment part false = .ok text :=
        decodePathSegment_eq_ok.mpr ⟨hpart.1, hpart.2.2⟩
      rw [List.cons_append, List.cons_append, fits_cons (by simp), Bool.and_eq_true,
        ih hplain (by simpa [fixedCount] using hcount), List.forall_mem_cons]
      constructor
      · rintro ⟨htext, hne, tail, hmatch⟩
        have hpartne : part ≠ [] :=
          mt hpart.1.nil_iff.mp (fits_ne_nil (by constructor <;> assumption) htext)
        exact ⟨⟨hpartne, hne⟩, _, (matchPattern_cons (by simp)).mpr ⟨part, _, text, tail, rfl, rfl,
          hdecode, htext, hmatch⟩⟩
      · rintro ⟨⟨-, hne⟩, valueParts, hmatch⟩
        obtain ⟨_, _, text', tail, ⟨⟩, -, hdecode', htext, hmatch⟩ :=
          (matchPattern_cons (by simp)).mp hmatch
        obtain rfl : text = text' := Except.ok.inj (hdecode.symm.trans hdecode')
        exact ⟨htext, hne, tail, hmatch⟩
  | multi =>
    have hall : List.Forall₂ RestPart (plain ++ rest) (plainTexts ++ restTexts) :=
      List.rel_append (hplain.imp fun _ _ => PlainPart.restPart) hrest
    generalize plain ++ rest = parts, plainTexts ++ restTexts = texts at hall
    have hempty : (∀ text ∈ texts, text ≠ []) ↔ ∀ part ∈ parts, part ≠ [] := by
      induction hall with
      | nil => simp
      | cons hpart _ ih =>
        rw [List.forall_mem_cons, List.forall_mem_cons, ih, ne_eq, ne_eq, hpart.1.nil_iff]
    have hfits : fits [.multi] texts = true ↔ ∀ text ∈ texts, text ≠ [] := by simp [fits]
    rw [hfits, hempty, iff_self_and]
    intro hne
    have hvalue : decodeMultiPath parts = .ok (join slash texts) := by
      have hnotEmpty : parts ≠ [[]] := by
        rintro rfl
        exact hne [] (by simp) rfl
      rw [decodeMultiPath, if_neg hnotEmpty, decodeParts_eq_ok.mpr ⟨hne, hall⟩, ok_bind]
    exact ⟨_, by rw [matchPattern, hvalue, ok_bind, matchPattern, ok_bind]⟩

/-- The plain segments of a path, with those of `**` at the end, and the segments of the value. -/
def Taken (pattern : List PatternSegment) (parts texts : List Bytes) : Prop :=
  ∃ plain rest plainTexts restTexts, parts = plain ++ rest ∧ texts = plainTexts ++ restTexts ∧
    List.Forall₂ PlainPart plain plainTexts ∧ List.Forall₂ RestPart rest restTexts ∧
    fixedCount pattern ≤ plain.length

/-- A literal or `*` takes a segment. -/
theorem Taken.cons (h : Taken pattern parts texts) (hslash : slash ∉ raw)
    (htext : decodePathSegment raw false = .ok text) (p : PatternSegment) :
    Taken (p :: pattern) (split slash (plainSlashes raw) ++ parts) (split slash text ++ texts) := by
  obtain ⟨plain, rest, plainTexts, restTexts, rfl, rfl, hplain, hrest, hcount⟩ := h
  refine ⟨_, rest, _, restTexts, (List.append_assoc ..).symm, (List.append_assoc ..).symm,
    List.rel_append (plainParts_split htext hslash) hplain, hrest, ?_⟩
  have hpos : 0 < (split slash (plainSlashes raw)).length :=
    List.length_pos_of_ne_nil (split_ne_nil _)
  have hle : fixedCount (p :: pattern) ≤ fixedCount pattern + 1 := by
    unfold fixedCount
    rw [List.countP_cons]
    split <;> omega
  rw [List.length_append]
  omega

theorem Taken.valid (h : Taken pattern parts texts) : ∀ text ∈ texts, utf8Valid text = true := by
  obtain ⟨plain, rest, plainTexts, restTexts, rfl, rfl, hplain, hrest, -⟩ := h
  have hall : List.Forall₂ RestPart (plain ++ rest) (plainTexts ++ restTexts) :=
    List.rel_append (hplain.imp fun _ _ => PlainPart.restPart) hrest
  generalize plain ++ rest = parts, plainTexts ++ restTexts = texts at hall
  induction hall with
  | nil => simp
  | cons hpart _ ih => exact List.forall_mem_cons.mpr ⟨hpart.2, ih⟩

/-- The segments of the value of `**`. -/
theorem flatMap_split_rest (hall : List.Forall₂ RestPart parts texts)
    (hne : ∀ part ∈ parts, part ≠ []) (hslash : ∀ part ∈ parts, slash ∉ part) :
    ((if join slash texts ≠ [] then [join slash texts] else []) ++ []).flatMap (split slash) =
      [] ++ texts := by
  have htexts : ∀ text ∈ texts, text ≠ [] ∧ slash ∉ text := by
    induction hall with
    | nil => simp
    | cons hpart _ ih =>
      rw [List.forall_mem_cons] at hne hslash ⊢
      refine ⟨⟨fun hnil => hne.1 (hpart.1.nil_iff.mpr hnil), hpart.1.slash_notMem hslash.1⟩,
        ih hne.2 hslash.2⟩
  by_cases hnil : texts = []
  · simp [hnil]
  · rw [if_pos (join_ne_nil hnil fun text htext => (htexts text htext).1)]
    simpa using split_join (fun text htext => (htexts text htext).2) hnil

/-- What `Match` has taken: the plain segments, and the segments of the value. -/
theorem matchPattern_plainParts (hpattern : PatternOk pattern)
    (hslash : ∀ raw ∈ rawParts, slash ∉ raw)
    (h : matchPattern v pattern rawParts = .ok (valueParts, [])) :
    Taken pattern (plainParts pattern rawParts) (valueParts.flatMap (split slash)) := by
  induction hpattern generalizing rawParts valueParts with
  | nil =>
    obtain ⟨rfl, rfl⟩ := Prod.mk.inj (Except.ok.inj h)
    exact ⟨[], [], [], [], rfl, rfl, .nil, .nil, Nat.le_refl _⟩
  | literal _ _ ih | single _ ih =>
    obtain ⟨part, parts, text, tail, rfl, rfl, htext, -, htail⟩ :=
      (matchPattern_cons (by simp)).mp h
    rw [List.forall_mem_cons] at hslash
    exact (ih hslash.2 htail).cons hslash.1 htext _
  | multi =>
    obtain ⟨value, hvalue, h⟩ := bind_eq_ok.mp h
    obtain ⟨rfl, -⟩ := Prod.mk.inj (Except.ok.inj h)
    unfold decodeMultiPath at hvalue
    split at hvalue
    next hempty =>
      cases hvalue
      exact ⟨[], [], [], [], by simp [plainParts, hempty], by simp, .nil, .nil, Nat.le_refl _⟩
    next hempty =>
      obtain ⟨texts, htexts, hvalue⟩ := bind_eq_ok.mp hvalue
      cases hvalue
      obtain ⟨hne, hall⟩ := decodeParts_eq_ok.mp htexts
      refine ⟨[], rawParts, [], texts, by simp [plainParts, hempty], ?_, .nil, hall, Nat.le_refl _⟩
      exact flatMap_split_rest hall hne hslash

theorem PatternOk.eq_multi (h : PatternOk pattern) (hne : pattern ≠ [])
    (hcount : fixedCount pattern = 0) : pattern = [.multi] := by
  cases h with
  | nil => exact absurd rfl hne
  | literal | single => simp [fixedCount] at hcount
  | multi => rfl

theorem Variable.takes_iff : v.takes parts = true ↔ (∀ part ∈ parts, part ≠ []) ∧
      ∃ valueParts, matchPattern v v.pattern parts = .ok (valueParts, []) := by
  unfold takes
  rw [Bool.and_eq_true, List.all_eq_true]
  simp only [bne_iff_ne]
  refine and_congr_right fun _ => ?_
  split
  next valueParts h => exact iff_of_true rfl ⟨valueParts, h⟩
  next h =>
    refine iff_of_false Bool.false_ne_true ?_
    rintro ⟨valueParts, hmatch⟩
    exact h valueParts hmatch

/-- The value of `*` is the text of its segment, which is also that text joined. -/
theorem matchVariable_eq_ok : matchVariable v rawParts = .ok (value, rest) ↔
    ∃ valueParts, matchPattern v v.pattern rawParts = .ok (valueParts, rest) ∧
      value = join slash valueParts := by
  unfold matchVariable
  split
  next hsingle =>
    cases rawParts with
    | nil => simp [hsingle, matchPattern]
    | cons part parts =>
      cases htext : decodePathSegment part false <;>
        simp [hsingle, matchPattern, guard_eq_ok, bind_eq_ok]
  next =>
    rw [bind_eq_ok]
    constructor
    · rintro ⟨⟨valueParts, _⟩, hmatch, ⟨⟩⟩
      exact ⟨valueParts, hmatch, rfl⟩
    · rintro ⟨valueParts, hmatch, rfl⟩
      exact ⟨_, hmatch, rfl⟩

section

variable (hpattern : PatternOk v.pattern) (hslash : ∀ raw ∈ rawParts, slash ∉ raw)
  (h : matchVariable v rawParts = .ok (value, []))

include hpattern hslash h

theorem matchVariable_valid : utf8Valid value = true := by
  obtain ⟨valueParts, hmatch, rfl⟩ := matchVariable_eq_ok.mp h
  have hvalid := (matchPattern_plainParts hpattern hslash hmatch).valid
  by_cases hnil : valueParts = []
  · rw [hnil]
    rfl
  · rw [← split_join_eq_flatMap hnil] at hvalid
    rw [← @join_split slash (join slash valueParts), utf8Valid_join (by decide), List.all_eq_true]
    exact hvalid

/-- The value of a variable fits the pattern exactly if the pattern takes the plain segments. -/
theorem fits_iff_plain (hne : v.pattern ≠ []) :
    fits v.pattern (split slash value) = true ↔ v.plain rawParts = true := by
  obtain ⟨valueParts, hmatch, rfl⟩ := matchVariable_eq_ok.mp h
  obtain ⟨plain, rest, plainTexts, restTexts, hparts, htexts, hplain, hrest, hcount⟩ :=
    matchPattern_plainParts hpattern hslash hmatch
  by_cases hnil : valueParts = []
  · -- only `**` takes nothing, and then the value has one empty segment
    subst hnil
    obtain ⟨rfl, rfl⟩ := List.append_eq_nil_iff.mp htexts.symm
    obtain rfl := List.forall₂_nil_right_iff.mp hplain
    obtain rfl := List.forall₂_nil_right_iff.mp hrest
    have hfits : fits [.multi] (split slash (join slash [])) = false := by decide
    rw [hpattern.eq_multi hne (Nat.le_zero.mp hcount), Variable.plain, hparts, hfits]
    simp
  · have hlength : plainParts v.pattern rawParts ≠ [] := by
      rw [hparts, ← List.length_pos_iff, List.length_append, hplain.length_eq,
        hrest.length_eq, ← List.length_append, ← htexts, ← split_join_eq_flatMap hnil]
      exact List.length_pos_iff.mpr (split_ne_nil _)
    rw [split_join_eq_flatMap hnil, htexts, fits_iff_matchPattern v hpattern hplain hrest
      hcount, ← hparts, ← Variable.takes_iff, Variable.plain, bne_iff_ne.mpr hlength, Bool.true_and]

end

/-! ## The segments of each variable -/

/-- The segments that a variable takes. -/
def Variable.width (v : Variable) (rawParts : List Bytes) : Nat :=
  if .multi ∈ v.pattern then rawParts.length else v.pattern.length

/-- The variables of some segments, each with its part of the path. -/
def spans : List Segment → List Bytes → List (Variable × List Bytes)
  | [], _ => []
  | .literal _ :: segments, rawParts => spans segments rawParts.tail
  | .variable v :: segments, rawParts =>
    (v, rawParts.take (v.width rawParts)) :: spans segments (rawParts.drop (v.width rawParts))

/-- A pattern leaves what it has not taken. -/
theorem matchPattern_split (hpattern : PatternOk pattern)
    (h : matchPattern v pattern rawParts = .ok (valueParts, rest)) :
    ∃ used, rawParts = used ++ rest ∧ matchPattern v pattern used = .ok (valueParts, []) ∧
      used.length = if .multi ∈ pattern then rawParts.length else pattern.length := by
  induction hpattern generalizing rawParts valueParts with
  | nil =>
    obtain ⟨rfl, rfl⟩ := Prod.mk.inj (Except.ok.inj h)
    exact ⟨[], rfl, rfl, rfl⟩
  | literal _ _ ih | single _ ih =>
    obtain ⟨part, parts, text, tail, rfl, rfl, htext, hfits, htail⟩ :=
      (matchPattern_cons (by simp)).mp h
    obtain ⟨used, rfl, hused, hlength⟩ := ih htail
    refine ⟨part :: used, rfl, (matchPattern_cons (by simp)).mpr ⟨part, used, text, tail, rfl, rfl,
      htext, hfits, hused⟩, ?_⟩
    simp only [List.length_cons, hlength, List.mem_cons, reduceCtorEq, false_or]
    split <;> rfl
  | multi =>
    obtain ⟨value, hvalue, h'⟩ := bind_eq_ok.mp h
    obtain ⟨-, rfl⟩ := Prod.mk.inj (Except.ok.inj h')
    exact ⟨rawParts, by simp, h, by simp⟩

theorem matchVariable_span (hpattern : PatternOk v.pattern)
    (h : matchVariable v rawParts = .ok (value, rest)) :
    matchVariable v (rawParts.take (v.width rawParts)) = .ok (value, []) ∧
      rest = rawParts.drop (v.width rawParts) := by
  obtain ⟨valueParts, hmatch, rfl⟩ := matchVariable_eq_ok.mp h
  obtain ⟨used, hused, hvalue, hlength⟩ := matchPattern_split hpattern hmatch
  have hwidth : v.width rawParts = used.length := hlength.symm
  rw [hwidth, hused, List.take_left, List.drop_left]
  exact ⟨matchVariable_eq_ok.mpr ⟨valueParts, hvalue, rfl⟩, rfl⟩

/-- The result of `Match`: each variable has the value of its part of the path. -/
theorem matchSegments_spans {acc values : Map Bytes Bytes} (hsegments : SegmentsOk segments)
    (hnodup : ((segments.filterMap Segment.variable?).map Variable.fieldPath).Nodup)
    (h : matchSegments acc segments rawParts = .ok values) :
    (∀ span ∈ spans segments rawParts, ∃ value, matchVariable span.1 span.2 = .ok (value, []) ∧
        values.lookup span.1.fieldPath = some value ∧ ∀ raw ∈ span.2, raw ∈ rawParts) ∧
      ∀ key, key ∉ (segments.filterMap Segment.variable?).map Variable.fieldPath →
        values.lookup key = acc.lookup key := by
  induction hsegments generalizing acc rawParts with
  | nil =>
    cases rawParts with
    | nil =>
      cases h
      exact ⟨by simp [spans], fun _ _ => rfl⟩
    | cons part rawParts => cases h
  | @literal raw segments _ _ ih =>
    cases rawParts with
    | nil => cases h
    | cons part rawParts =>
      obtain ⟨_, -, h⟩ := bind_eq_ok.mp h
      obtain ⟨hspans, hother⟩ := ih hnodup h
      refine ⟨fun span hspan => ?_, hother⟩
      obtain ⟨value, hvalue, hlookup, hmem⟩ := hspans span hspan
      exact ⟨value, hvalue, hlookup, fun raw hraw => List.mem_cons_of_mem _ (hmem raw hraw)⟩
  | @capture v segments hpattern _ _ _ _ ih =>
    obtain ⟨⟨value, rest⟩, hvalue, h⟩ := bind_eq_ok.mp h
    obtain ⟨hspan, rfl⟩ := matchVariable_span hpattern hvalue
    rw [variables_cons, List.map_cons, List.nodup_cons] at hnodup
    obtain ⟨hspans, hother⟩ := ih hnodup.2 h
    refine ⟨List.forall_mem_cons.mpr ⟨⟨value, hspan, ?_, fun raw hraw => List.mem_of_mem_take hraw⟩,
      ?_⟩, ?_⟩
    · rw [hother _ hnodup.1, Map.lookup_insert_eq, if_pos rfl]
    · intro span hmem
      obtain ⟨value', hvalue', hlookup, hsub⟩ := hspans span hmem
      exact ⟨value', hvalue', hlookup, fun raw hraw => List.mem_of_mem_drop (hsub raw hraw)⟩
    · intro key hkey
      rw [variables_cons, List.map_cons, List.mem_cons, not_or] at hkey
      rw [hother key hkey.2, Map.lookup_insert_eq, if_neg hkey.1]

theorem spans_fst :
    (spans segments rawParts).map Prod.fst = segments.filterMap Segment.variable? := by
  induction segments generalizing rawParts with
  | nil => rfl
  | cons segment segments ih =>
    rcases segment with raw | v
    · exact ih
    · exact congrArg (v :: ·) ih

/-! ## Values and expansion -/

/-- What `Expand` needs of the value of a variable. -/
def Variable.Accepts (v : Variable) (value : Bytes) : Prop :=
  if v.pattern = [.single] then value ≠ [] else fits v.pattern (split slash value) = true

theorem expandVariable_isOk (hpattern : PatternOk v.pattern)
    (h : v.Accepts value) : ∃ expanded, expandVariable v value = .ok expanded ∧ expanded ≠ [] := by
  unfold Variable.Accepts at h
  unfold expandVariable
  split at h
  next hsingle => exact ⟨[encodePathSegment value], by rw [if_pos hsingle, if_neg h], by simp⟩
  next hsingle =>
    obtain ⟨expanded, hexpanded, hlength⟩ := @expandPattern_isOk v value _ _ hpattern h
    refine ⟨expanded, by rw [if_neg hsingle, hexpanded], ?_⟩
    rw [← List.length_pos_iff, hlength]
    exact List.length_pos_iff.mpr (split_ne_nil _)

theorem expandSegments_isOk {values : Map Bytes Bytes} (hsegments : SegmentsOk segments)
    (h : ∀ v ∈ segments.filterMap Segment.variable?, ∃ value,
      values.lookup v.fieldPath = some value ∧ v.Accepts value) :
    ∃ parts, expandSegments values segments = .ok parts ∧ (segments ≠ [] → parts ≠ []) := by
  induction hsegments with
  | nil => exact ⟨[], rfl, fun hne => absurd rfl hne⟩
  | @literal raw segments _ _ ih =>
    obtain ⟨parts, hparts, -⟩ := ih h
    exact ⟨raw :: parts, by rw [expandSegments, hparts, ok_bind], by simp⟩
  | @capture v segments hpattern _ _ _ _ ih =>
    rw [variables_cons, List.forall_mem_cons] at h
    obtain ⟨⟨value, hlookup, haccepts⟩, hrest⟩ := h
    obtain ⟨expanded, hexpanded, hne⟩ := expandVariable_isOk hpattern haccepts
    obtain ⟨parts, hparts, -⟩ := ih hrest
    refine ⟨expanded ++ parts, ?_, by simp [hne]⟩
    simp only [expandSegments, hlookup, hexpanded, hparts, ok_bind]

theorem eq_append_of_cutLast {c : UInt8} {s before after : Bytes}
    (h : cutLast c s = some (before, after)) : s = before ++ c :: after := by
  induction s generalizing before with
  | nil => cases h
  | cons b s ih =>
    rw [cutLast] at h
    split at h
    next before' after' hcut =>
      obtain ⟨rfl, rfl⟩ := Prod.mk.inj (Option.some.inj h)
      rw [ih hcut, List.cons_append]
    next hcut =>
      split at h
      next hb =>
        obtain ⟨rfl, rfl⟩ := Prod.mk.inj (Option.some.inj h)
        rw [hb, List.nil_append]
      next => cases h

theorem slash_notMem_of_rawParts {path : Bytes}
    (h : t.rawParts path = .ok parts) : ∀ raw ∈ parts, slash ∉ raw := by
  have hsplit : ∀ raw ∈ split slash path.tail, slash ∉ raw :=
    fun raw hraw => notMem_of_mem_split hraw
  unfold Template.rawParts at h
  dsimp only at h
  split at h
  · cases h
    exact hsplit
  · split at h
    · cases h
    next last verb hcut =>
      obtain ⟨_, -, h⟩ := bind_eq_ok.mp h
      obtain ⟨-, h⟩ := guard_eq_ok.mp h
      cases h
      intro raw hraw
      rcases List.mem_append.mp hraw with hraw | hraw
      · exact hsplit raw (List.mem_of_mem_dropLast hraw)
      · obtain rfl := List.mem_singleton.mp hraw
        have hlast := hsplit _ (List.getLast_mem (split_ne_nil path.tail))
        rw [List.getLast?_eq_some_getLast (split_ne_nil path.tail), Option.getD_some] at hcut
        rw [eq_append_of_cutLast hcut] at hlast
        exact fun hmem => hlast (List.mem_append_left _ hmem)

theorem SegmentsOk.of_mem (h : SegmentsOk segments) :
    ∀ v ∈ segments.filterMap Segment.variable?, PatternOk v.pattern ∧ v.pattern ≠ [] ∧
      (v.requiresString = true ↔ v.pattern ≠ [.single]) := by
  induction h with
  | nil => simp
  | literal _ _ ih => exact ih
  | @capture v segments hpattern hne hexplicit _ _ ih =>
    rw [variables_cons, List.forall_mem_cons]
    refine ⟨⟨hpattern, hne, ?_⟩, ih⟩
    rw [Variable.requiresString, Bool.and_eq_true, bne_iff_ne]
    refine ⟨And.right, fun hsingle => ⟨?_, hsingle⟩⟩
    by_contra hnot
    exact hsingle (hexplicit (by simpa using hnot))

theorem matchVariable_single_ne_nil (hsingle : v.pattern = [.single])
    (h : matchVariable v rawParts = .ok (value, rest)) : value ≠ [] := by
  obtain ⟨valueParts, hmatch, rfl⟩ := matchVariable_eq_ok.mp h
  rw [hsingle] at hmatch
  obtain ⟨part, parts, text, tail, -, rfl, -, hfits, ⟨⟩⟩ := (matchPattern_cons (by simp)).mp hmatch
  simpa [fits] using hfits

/-- The values that `Match` returns: their variables, and what `Expand` needs of each. -/
structure Matched (t : Template) (parts : List Bytes) (values : Map Bytes Bytes) : Prop where
  wellFormed : t.WellFormed
  slash : ∀ raw ∈ parts, slash ∉ raw
  result : matchSegments ∅ t.segments parts = .ok values

namespace Matched

variable {values : Map Bytes Bytes} (h : Matched t parts values)

include h

theorem of_span : ∀ span ∈ spans t.segments parts, span.1 ∈ t.variables ∧
    ∃ value, matchVariable span.1 span.2 = .ok (value, []) ∧
      values.lookup span.1.fieldPath = some value ∧
      utf8Valid value = true ∧ (fits span.1.pattern (split Http.slash value) = true ↔
        span.1.plain span.2 = true) := by
  intro span hspan
  have hmem : span.1 ∈ t.variables := by
    rw [Template.variables, ← @spans_fst parts t.segments]
    exact List.mem_map_of_mem hspan
  obtain ⟨value, hvalue, hlookup, hsub⟩ :=
    (matchSegments_spans h.wellFormed.segments h.wellFormed.nodup h.result).1 span hspan
  obtain ⟨hpattern, hne, -⟩ := h.wellFormed.segments.of_mem span.1 hmem
  have hslash : ∀ raw ∈ span.2, Http.slash ∉ raw := fun raw hraw => h.slash raw (hsub raw hraw)
  exact ⟨hmem, value, hvalue, hlookup, matchVariable_valid hpattern hslash hvalue,
    fits_iff_plain hpattern hslash hvalue hne⟩

theorem of_variable (hv : v ∈ t.variables) : ∃ rawParts value,
    (v, rawParts) ∈ spans t.segments parts ∧
    matchVariable v rawParts = .ok (value, []) ∧ values.lookup v.fieldPath = some value ∧
    utf8Valid value = true ∧ (fits v.pattern (split Http.slash value) = true ↔
      v.plain rawParts = true) := by
  rw [Template.variables, ← @spans_fst parts t.segments] at hv
  obtain ⟨⟨v, rawParts⟩, hspan, rfl⟩ := List.mem_map.mp hv
  obtain ⟨-, value, hvalue⟩ := h.of_span _ hspan
  exact ⟨rawParts, value, hspan, hvalue⟩

theorem mem_iff (key : Bytes) : key ∈ values ↔ key ∈ t.variables.map Variable.fieldPath := by
  constructor
  · intro hmem
    by_contra hkey
    have hother := (matchSegments_spans h.wellFormed.segments h.wellFormed.nodup h.result).2
      key hkey
    rw [Finmap.lookup_empty, Finmap.lookup_eq_none] at hother
    exact hother hmem
  · intro hkey
    obtain ⟨v, hv, rfl⟩ := List.mem_map.mp hkey
    obtain ⟨-, value, -, -, hlookup, -⟩ := h.of_variable hv
    exact Map.mem_of_lookup hlookup

theorem valid {key : Bytes} (hlookup : values.lookup key = some value) :
    utf8Valid value = true := by
  obtain ⟨v, hv, rfl⟩ := List.mem_map.mp ((h.mem_iff key).mp (Map.mem_of_lookup hlookup))
  obtain ⟨-, value', -, -, hlookup', hvalid, -⟩ := h.of_variable hv
  obtain rfl : value = value' := Option.mem_unique hlookup hlookup'
  exact hvalid

/-- Values that fit expand to a path with the same values. -/
theorem expand_isOk (hfits : ∀ v ∈ t.variables, v.requiresString = true →
      ∃ value, values.lookup v.fieldPath = some value ∧
        fits v.pattern (split Http.slash value) = true) :
    ∃ path, t.expand values = .ok path ∧ t.matchPath path = .ok values := by
  have haccepts : ∀ v ∈ t.variables, ∃ value, values.lookup v.fieldPath = some value ∧
      v.Accepts value := by
    intro v hv
    obtain ⟨-, -, hsingle⟩ := h.wellFormed.segments.of_mem v hv
    by_cases hpattern : v.pattern = [.single]
    · obtain ⟨rawParts, value, -, hvalue, hlookup, -⟩ := h.of_variable hv
      refine ⟨value, hlookup, ?_⟩
      rw [Variable.Accepts, if_pos hpattern]
      exact matchVariable_single_ne_nil hpattern hvalue
    · obtain ⟨value, hlookup, hvalue⟩ := hfits v hv (hsingle.mpr hpattern)
      refine ⟨value, hlookup, ?_⟩
      rwa [Variable.Accepts, if_neg hpattern]
  obtain ⟨expanded, hexpanded, hne⟩ := expandSegments_isOk h.wellFormed.segments haccepts
  have hexpand : t.expand values = .ok (pathWith expanded t.verb) := by
    rw [Template.expand, hexpanded, ok_bind, if_neg (hne h.wellFormed.nonempty)]
  exact ⟨_, hexpand, WellFormed.matchPath_expand h.wellFormed h.mem_iff (fun _ _ =>
    h.valid) hexpand⟩

end Matched

/-- **Values respect their patterns**, and expand to a path with the same values, exactly if every
pattern with several segments takes the plain segments of its part of the path. -/
theorem matchPath_respects_iff {raw : Bytes} {t : Template} (hparse : parse raw = .ok t)
    {path : Bytes} {values : Map Bytes Bytes} (hmatch : t.matchPath path = .ok values) :
    ((∀ v ∈ t.variables, v.requiresString = true →
          ∃ value, values.lookup v.fieldPath = some value ∧
            fits v.pattern (split slash value) = true) ∧
        ∃ path', t.expand values = .ok path' ∧ t.matchPath path' = .ok values) ↔
      ∀ parts, t.rawParts path = .ok parts →
        ∀ span ∈ spans t.segments parts, span.1.requiresString = true →
          span.1.plain span.2 = true := by
  obtain ⟨-, hmatch⟩ := guard_eq_ok.mp hmatch
  obtain ⟨parts, hparts, hresult⟩ := bind_eq_ok.mp hmatch
  have h : Matched t parts values :=
    ⟨parse_wellFormed hparse, slash_notMem_of_rawParts hparts, hresult⟩
  constructor
  · rintro ⟨hfits, -⟩ parts' hparts' span hspan hstring
    obtain rfl : parts = parts' := Except.ok.inj (hparts.symm.trans hparts')
    obtain ⟨hv, value, -, hlookup, -, hiff⟩ := h.of_span span hspan
    obtain ⟨value', hlookup', hvalue⟩ := hfits span.1 hv hstring
    obtain rfl : value = value' := Option.mem_unique hlookup hlookup'
    exact hiff.mp hvalue
  · intro hplain
    have hfits : ∀ v ∈ t.variables, v.requiresString = true →
        ∃ value, values.lookup v.fieldPath = some value ∧
          fits v.pattern (split slash value) = true := by
      intro v hv hstring
      obtain ⟨rawParts, value, hspan, -, hlookup, -, hiff⟩ := h.of_variable hv
      exact ⟨value, hlookup, hiff.mpr (hplain parts hparts _ hspan hstring)⟩
    exact ⟨hfits, h.expand_isOk hfits⟩

/-! ## An escaped slash -/

end

namespace EscapedSlash

/-- The variable of the template. -/
def name : Variable := ⟨ascii ['n', 'a', 'm', 'e'],
    [.literal (ascii "shelves".toList), .single], true⟩

/-- A template whose variable has two segments. -/
def template : Template := ⟨[.variable name], []⟩

/-- The text of the template. -/
def raw : Bytes := ascii "/\x7bname=shelves/*\x7d".toList

/-- The values of a match. -/
def values (value : Bytes) : Map Bytes Bytes := (∅ : Map Bytes Bytes).insert name.fieldPath value

/-- The value with the slash of the path decoded. -/
def value : Bytes := ascii "shelves/a/b".toList

/-- Another path, with another escape. -/
def path : Bytes := ascii "/shelves/a%3Ab".toList

/-- The segments of this path. -/
def parts : List Bytes := [ascii "shelves".toList, ascii "a%3Ab".toList]

/-- Its value. -/
def other : Bytes := ascii "shelves/a:b".toList

theorem evaluated : (parse raw = .ok template ∧
    template.matchPath (ascii "/shelves/a%2Fb".toList) = .ok (values value) ∧
      template.expand (values value) = .error (.variableMismatch name value) ∧
      fits name.pattern (split slash value) = false) ∧
    template.matchPath path = .ok (values other) ∧ template.rawParts path = .ok parts ∧
    ∀ span ∈ spans template.segments parts, span.1.plain span.2 = true := by
  decide +kernel

/-- `*` takes one segment of the path, but the value has one segment too many: `Expand` refuses
it. -/
theorem value_not_expanded :
    parse raw = .ok template ∧ template.matchPath (ascii "/shelves/a%2Fb".toList) =
      .ok (values value) ∧ template.expand (values value) = .error (.variableMismatch name value) ∧
      fits name.pattern (split slash value) = false :=
  evaluated.1

/-- Another escaped character does no harm. -/
theorem path_respected : (∀ v ∈ template.variables, v.requiresString = true →
        ∃ value, (values other).lookup v.fieldPath = some value ∧
          fits v.pattern (split slash value) = true) ∧
      ∃ path', template.expand (values other) = .ok path' ∧
        template.matchPath path' = .ok (values other) := by
  obtain ⟨⟨hparse, -⟩, hmatch, hraw, hplain⟩ := evaluated
  refine (matchPath_respects_iff hparse hmatch).mpr fun parts' hparts span hspan _ => ?_
  obtain rfl : parts = parts' := Except.ok.inj (hraw.symm.trans hparts)
  exact hplain span hspan

end EscapedSlash

end Keelith.Http

import Keelith.Http.Template
import Keelith.Lib.Checks

/-!
# Parsed templates, escapes and request paths

* `parse_wellFormed`: what `Parse` accepts. A literal has no reserved character and decodes; `**` is
  the last segment of its pattern, and its variable the last segment of the template; no two
  variables have one field path.
* `decodeBytes_encode`: decoding undoes encoding. With `preserveSlash` it does so for a value
  without a slash.
* `rawParts_path`: `Match` finds the segments of a path again and accepts the verb in every
  spelling.
-/

namespace Keelith.Http

open Bytes

/-! ## Well-formed templates -/

/-- A literal of a parsed template. -/
def IsLiteral (raw : Bytes) : Prop := validateLiteral raw = .ok ()

/-- A pattern of a parsed template. -/
inductive PatternOk : List PatternSegment → Prop where
  | nil : PatternOk []
  | literal {raw : Bytes} {pattern : List PatternSegment} (hraw : IsLiteral raw)
      (hrest : PatternOk pattern) :
      PatternOk (.literal raw :: pattern)
  | single {pattern : List PatternSegment} (hrest : PatternOk pattern) :
      PatternOk (.single :: pattern)
  | multi : PatternOk [.multi]

/-- The segments of a parsed template. -/
inductive SegmentsOk : List Segment → Prop where
  | nil : SegmentsOk []
  | literal {raw : Bytes} {segments : List Segment} (hraw : IsLiteral raw)
      (hrest : SegmentsOk segments) :
      SegmentsOk (.literal raw :: segments)
  | capture {v : Variable} {segments : List Segment} (hpattern : PatternOk v.pattern)
      (hne : v.pattern ≠ []) (hexplicit : v.explicit = false → v.pattern = [.single])
      (hmulti : .multi ∈ v.pattern → segments = []) (hrest : SegmentsOk segments) :
      SegmentsOk (.variable v :: segments)

/-- What `Parse` accepts. -/
structure Template.WellFormed (t : Template) : Prop where
  segments : SegmentsOk t.segments
  nonempty : t.segments ≠ []
  nodup : (t.variables.map Variable.fieldPath).Nodup
  verb : t.verb = [] ∨ IsLiteral t.verb

variable {pattern : List PatternSegment}

theorem parsePattern_ok {rawSegments : List Bytes}
    (h : parsePattern rawSegments = .ok pattern) :
    PatternOk pattern ∧ pattern.length = rawSegments.length := by
  induction rawSegments generalizing pattern with
  | nil =>
    obtain rfl : [] = pattern := by simpa [parsePattern] using h
    exact ⟨.nil, rfl⟩
  | cons raw rest ih =>
    unfold parsePattern at h
    split at h
    · obtain ⟨segments, hsegments, hcons⟩ := bind_eq_ok.mp h
      obtain rfl : _ = pattern := by simpa using hcons
      exact ⟨.single (ih hsegments).1, by simp [(ih hsegments).2]⟩
    · split at h
      · obtain ⟨hrest, h⟩ := guard_eq_ok.mp h
        obtain rfl : rest = [] := not_not.mp hrest
        obtain rfl : [.multi] = pattern := Except.ok.inj h
        exact ⟨.multi, rfl⟩
      · obtain ⟨-, h⟩ := guard_eq_ok.mp h
        obtain ⟨_, hraw, h⟩ := bind_eq_ok.mp h
        obtain ⟨segments, hsegments, hcons⟩ := bind_eq_ok.mp h
        obtain rfl : _ = pattern := by simpa using hcons
        exact ⟨.literal hraw (ih hsegments).1, by simp [(ih hsegments).2]⟩

variable {raw : Bytes} {preserveSlash : Bool} {value : Bytes} {parts : List Bytes} {verb : Bytes}

theorem parseVariable_ok {v : Variable} (h : parseVariable raw = .ok v) :
    PatternOk v.pattern ∧ v.pattern ≠ [] ∧ (v.explicit = false → v.pattern = [.single]) := by
  unfold parseVariable at h
  generalize cutAssignment raw = cut at h
  obtain ⟨fieldPath, assigned⟩ := cut
  obtain ⟨-, h⟩ := guard_eq_ok.mp h
  obtain ⟨-, h⟩ := guard_eq_ok.mp h
  obtain ⟨-, h⟩ := guard_eq_ok.mp h
  obtain ⟨segments, hsegments, hv⟩ := bind_eq_ok.mp h
  obtain rfl : _ = v := by simpa using hv
  obtain ⟨hpattern, hlength⟩ := parsePattern_ok hsegments
  refine ⟨hpattern, ?_, ?_⟩
  · rintro (rfl : segments = [])
    exact split_ne_nil _ (List.length_eq_zero_iff.mp hlength.symm)
  · intro hexplicit
    cases assigned with
    | some pattern => cases hexplicit
    | none =>
      have hstar : parsePattern (split slash (ascii ['*'])) = .ok [.single] := by decide
      exact (Except.ok.inj hsegments).symm

theorem PatternOk.getLast?_of_multi (h : PatternOk pattern)
    (hmulti : .multi ∈ pattern) : pattern.getLast? = some .multi := by
  induction h with
  | nil => cases hmulti
  | literal _ hrest ih | single hrest ih =>
    have hmem := List.mem_of_ne_of_mem (by simp) hmulti
    rw [List.getLast?_cons, ih hmem]
    rfl
  | multi => rfl

theorem parseSegments_ok {seen rawSegments : List Bytes} {segments : List Segment}
    (h : parseSegments seen rawSegments = .ok segments) :
    SegmentsOk segments ∧ segments.length = rawSegments.length ∧
      ((segments.filterMap Segment.variable?).map Variable.fieldPath).Nodup ∧
      ∀ v ∈ segments.filterMap Segment.variable?, v.fieldPath ∉ seen := by
  induction rawSegments generalizing seen segments with
  | nil =>
    obtain rfl : [] = segments := by simpa [parseSegments] using h
    exact ⟨.nil, rfl, List.nodup_nil, by simp⟩
  | cons raw rest ih =>
    obtain ⟨-, h⟩ := guard_eq_ok.mp h
    obtain ⟨-, h⟩ := guard_eq_ok.mp h
    split at h
    · obtain ⟨v, hv, h⟩ := bind_eq_ok.mp h
      obtain ⟨hseen, h⟩ := guard_eq_ok.mp h
      obtain ⟨-, h⟩ := guard_eq_ok.mp h
      obtain ⟨hmulti, h⟩ := guard_eq_ok.mp h
      obtain ⟨tail, htail, hcons⟩ := bind_eq_ok.mp h
      obtain rfl : _ = segments := by simpa using hcons
      obtain ⟨hsegments, hlength, hnodup, hnew⟩ := ih htail
      obtain ⟨hpattern, hne, hexplicit⟩ := parseVariable_ok hv
      refine ⟨.capture hpattern hne hexplicit ?_ hsegments, by simp [hlength], ?_, ?_⟩
      · intro hmem
        have hlast : v.hasMultiWildcard = true := by
          simp [Variable.hasMultiWildcard, hpattern.getLast?_of_multi hmem]
        have hrest : rest = [] := by
          by_contra hrest
          exact hmulti ⟨hlast, hrest⟩
        rw [hrest] at hlength
        exact List.length_eq_zero_iff.mp hlength
      · rw [List.filterMap_cons_some (by rfl), List.map_cons, List.nodup_cons]
        refine ⟨?_, hnodup⟩
        intro hmem
        obtain ⟨w, hw, heq⟩ := List.mem_map.mp hmem
        exact hnew w hw (by simp [heq])
      · rw [List.filterMap_cons_some (by rfl), List.forall_mem_cons]
        exact ⟨hseen, fun w hw hmem => hnew w hw (List.mem_cons_of_mem _ hmem)⟩
    · obtain ⟨-, h⟩ := guard_eq_ok.mp h
      obtain ⟨_, hraw, h⟩ := bind_eq_ok.mp h
      obtain ⟨tail, htail, hcons⟩ := bind_eq_ok.mp h
      obtain rfl : _ = segments := by simpa using hcons
      obtain ⟨hsegments, hlength, hnodup, hnew⟩ := ih htail
      exact ⟨.literal hraw hsegments, by simp [hlength], hnodup, hnew⟩

theorem splitVerb_ok {path : Bytes} (h : splitVerb raw = .ok (path, verb)) :
    verb = [] ∨ IsLiteral verb := by
  obtain ⟨found, -, h⟩ := bind_eq_ok.mp h
  cases found with
  | none =>
    obtain ⟨-, rfl⟩ : raw = path ∧ [] = verb := by simpa using h
    exact .inl rfl
  | some index =>
    obtain ⟨-, h⟩ := guard_eq_ok.mp h
    obtain ⟨_, hverb, h⟩ := bind_eq_ok.mp h
    obtain ⟨-, rfl⟩ : _ = path ∧ _ = verb := by simpa using h
    exact .inr hverb

theorem parse_wellFormed {t : Template} (h : parse raw = .ok t) : t.WellFormed := by
  obtain ⟨-, h⟩ := guard_eq_ok.mp h
  obtain ⟨⟨path, verb⟩, hverb, h⟩ := bind_eq_ok.mp h
  obtain ⟨rawSegments, -, h⟩ := bind_eq_ok.mp h
  obtain ⟨hcount, h⟩ := guard_eq_ok.mp h
  obtain ⟨segments, hsegments, ht⟩ := bind_eq_ok.mp h
  obtain rfl : _ = t := by simpa using ht
  obtain ⟨hok, hlength, hnodup, -⟩ := parseSegments_ok hsegments
  refine ⟨hok, ?_, hnodup, splitVerb_ok hverb⟩
  rintro rfl
  exact hcount (.inl hlength.symm)

/-! ## Literals -/

theorem validateLiteral_eq_ok : validateLiteral raw = .ok () ↔
      raw ≠ [] ∧ (∀ b ∈ raw, b ∉ reserved) ∧ ∃ text, decodePathSegment raw false = .ok text := by
  unfold validateLiteral
  rw [guard_eq_ok, Bool.or_eq_true, decide_eq_true_eq, not_or, Bool.not_eq_true,
    containsAny_eq_false_iff]
  cases decodePathSegment raw false <;> simp

namespace IsLiteral

variable (h : IsLiteral raw)

include h

theorem ne_nil : raw ≠ [] := (validateLiteral_eq_ok.mp h).1

theorem notMem_reserved : ∀ b ∈ raw, b ∉ reserved := (validateLiteral_eq_ok.mp h).2.1

theorem decode : decodePathSegment raw false = .ok (decodedLiteral raw) := by
  obtain ⟨-, -, text, htext⟩ := validateLiteral_eq_ok.mp h
  rw [decodedLiteral, htext]

end IsLiteral

/-! ## Escapes -/

set_option maxRecDepth 4000 in
/-- The two digits of a byte. -/
theorem hexadecimal_byte : ∀ n < 256, let r := UInt8.ofNat n
    fromHex (hexadecimal (r >>> 4)) = some (r >>> 4) ∧
      fromHex (hexadecimal (r &&& 0x0f)) = some (r &&& 0x0f) ∧
      (r >>> 4) <<< 4 ||| (r &&& 0x0f) = r ∧
      unreserved (hexadecimal (r >>> 4)) = true ∧ unreserved (hexadecimal (r &&& 0x0f)) = true := by
  decide

theorem decodeBytes_cons {b : UInt8} (hb : b ≠ percent) (rest : Bytes) :
    decodeBytes preserveSlash (b :: rest) = (decodeBytes preserveSlash rest).map (b :: ·) := by
  rw [decodeBytes.eq_def]
  simp [hb]

/-- Decoding undoes encoding, slash by slash. -/
theorem decodeBytes_encode (hslash : preserveSlash = true → slash ∉ value) :
    decodeBytes preserveSlash (encodePathSegment value) = some value := by
  induction value with
  | nil => rfl
  | cons r value ih =>
    have hrest := ih fun hp hmem => hslash hp (List.mem_cons_of_mem _ hmem)
    rw [encodePathSegment, List.flatMap_cons]
    change decodeBytes preserveSlash (_ ++ encodePathSegment value) = _
    by_cases hr : unreserved r = true
    · have hne : r ≠ percent := by
        rintro rfl
        cases hr
      rw [if_pos hr, List.singleton_append, decodeBytes_cons hne, hrest, Option.map_some]
    · obtain ⟨hhigh, hlow, hjoin, -⟩ := hexadecimal_byte r.toNat r.toNat_lt
      rw [UInt8.ofNat_toNat] at hhigh hlow hjoin
      have hkept : (preserveSlash && r == slash) = false := by
        rw [Bool.and_eq_false_iff, beq_eq_false_iff_ne]
        by_cases hp : preserveSlash = true
        · exact .inr fun heq => hslash hp (heq ▸ List.mem_cons_self)
        · exact .inl (by simpa using hp)
      rw [if_neg hr]
      simp [decodeBytes, hhigh, hlow, hjoin, hrest, hkept]

theorem decodePathSegment_encode (hvalid : utf8Valid value = true)
    (hslash : preserveSlash = true → slash ∉ value) :
    decodePathSegment (encodePathSegment value) preserveSlash = .ok value := by
  rw [decodePathSegment, decodeBytes_encode hslash]
  simp [hvalid]

theorem notMem_reserved_of_mem_escape {r b : UInt8}
    (hb : b ∈ [percent, hexadecimal (r >>> 4), hexadecimal (r &&& 0x0f)]) : b ∉ reserved := by
  have hunreserved : ∀ b ∈ reserved, unreserved b ≠ true ∧ b ≠ percent :=
    forall_mem_of_all (by decide)
  intro hmem
  obtain ⟨-, -, -, hhigh, hlow⟩ := hexadecimal_byte r.toNat r.toNat_lt
  rw [UInt8.ofNat_toNat] at hhigh hlow
  obtain ⟨hfalse, hpercent⟩ := hunreserved b hmem
  simp only [List.mem_cons, List.not_mem_nil, or_false] at hb
  rcases hb with rfl | rfl | rfl
  · exact hpercent rfl
  · exact hfalse hhigh
  · exact hfalse hlow

theorem notMem_reserved_of_mem_encode : ∀ b ∈ encodePathSegment value, b ∉ reserved := by
  have hunreserved : ∀ b ∈ reserved, unreserved b ≠ true := forall_mem_of_all (by decide)
  intro b hb
  obtain ⟨r, -, hb⟩ := List.mem_flatMap.mp hb
  split at hb
  next hr =>
    intro hmem
    rw [List.mem_singleton.mp hb] at hmem
    exact hunreserved r hmem hr
  next => exact notMem_reserved_of_mem_escape hb

theorem encodePathSegment_ne_nil (h : value ≠ []) : encodePathSegment value ≠ [] := by
  obtain ⟨r, value, rfl⟩ := List.exists_cons_of_ne_nil h
  rw [encodePathSegment, List.flatMap_cons]
  split <;> simp

/-! ## Request paths -/

/-- A segment of a path as `Expand` writes it. -/
def PartOk (part : Bytes) : Prop := part ≠ [] ∧ ∀ b ∈ part, b ∉ reserved

theorem PartOk.slash_notMem {part : Bytes} (h : PartOk part) : slash ∉ part :=
  fun hmem => h.2 slash hmem (by decide)

theorem IsLiteral.partOk (h : IsLiteral raw) : PartOk raw := ⟨h.ne_nil, h.notMem_reserved⟩

theorem partOk_encode (h : value ≠ []) : PartOk (encodePathSegment value) :=
  ⟨encodePathSegment_ne_nil h, notMem_reserved_of_mem_encode⟩

/-- `verb` is a spelling of the verb of a template. -/
def Spells (verb : Bytes) (t : Template) : Prop :=
  (verb = [] ↔ t.verb = []) ∧ (∀ b ∈ verb, b ∉ reserved) ∧
    (verb ≠ [] → decodePathSegment verb false = .ok (decodedLiteral t.verb))

theorem mem_join {sep b : UInt8} (h : b ∈ join sep parts) : b = sep ∨ ∃ part ∈ parts, b ∈ part := by
  induction parts with
  | nil => cases h
  | cons part parts ih =>
    by_cases hne : parts = []
    · subst hne
      rw [join_singleton] at h
      exact .inr ⟨part, by simp, h⟩
    · rw [join_cons hne, List.mem_append, List.mem_cons] at h
      rcases h with h | h | h
      · exact .inr ⟨part, by simp, h⟩
      · exact .inl h
      · rcases ih h with h | ⟨p, hp, h⟩
        · exact .inl h
        · exact .inr ⟨p, List.mem_cons_of_mem _ hp, h⟩

/-- The first check of `Match`. -/
theorem pathWith_valid (hparts : ∀ part ∈ parts, PartOk part) (hverb : ∀ b ∈ verb, b ∉ reserved) :
    ((pathWith parts verb).head? != some slash ||
      containsAny (pathWith parts verb) (ascii ['?', '#', '\r', '\n'])) = false := by
  have hsub : ∀ b ∈ ascii ['?', '#', '\r', '\n'], b ∈ reserved ∧ b ≠ slash ∧ b ≠ colon :=
    forall_mem_of_all (by decide)
  rw [Bool.or_eq_false_iff, containsAny_eq_false_iff]
  refine ⟨by simp [pathWith], fun b hb hmem => ?_⟩
  obtain ⟨hreserved, hslash, hcolon⟩ := hsub b hmem
  rw [pathWith, List.mem_cons, List.mem_append] at hb
  rcases hb with hb | hb | hb
  · exact hslash hb
  · rcases mem_join hb with hb | ⟨part, hpart, hb⟩
    · exact hslash hb
    · exact (hparts part hpart).2 b hb hreserved
  · split at hb
    · cases hb
    · rcases List.mem_cons.mp hb with hb | hb
      · exact hcolon hb
      · exact hverb b hb hreserved

/-- The segments of a path with a verb. -/
theorem split_pathWith (hne : parts ≠ []) (hparts : ∀ part ∈ parts, PartOk part)
    (hverb : verb ≠ []) (hreserved : ∀ b ∈ verb, b ∉ reserved) :
    split slash (pathWith parts verb).tail = parts.dropLast ++
      [parts.getLast hne ++ colon :: verb] := by
  have hslash : ∀ part ∈ parts, slash ∉ part := fun part hpart => (hparts part hpart).slash_notMem
  have hjoin : join slash parts ++ colon :: verb =
      join slash (parts.dropLast ++ [parts.getLast hne ++ colon :: verb]) := by
    conv_lhs => rw [← List.dropLast_append_getLast hne]
    by_cases hinit : parts.dropLast = []
    · simp [hinit]
    · rw [join_append hinit (by simp), join_append hinit (by simp)]
      simp
  rw [pathWith, if_neg hverb, hjoin]
  refine split_join (fun part hpart => ?_) (by simp)
  rcases List.mem_append.mp hpart with hpart | hpart
  · exact hslash part (List.mem_of_mem_dropLast hpart)
  · rw [List.mem_singleton.mp hpart, List.mem_append, List.mem_cons, not_or, not_or]
    exact ⟨hslash _ (List.getLast_mem hne), by decide, fun hmem => hreserved slash hmem (by decide)⟩

theorem rawParts_path {t : Template} (hne : parts ≠ [])
    (hparts : ∀ part ∈ parts, PartOk part) (hverb : Spells verb t) :
    t.rawParts (pathWith parts verb) = .ok parts := by
  obtain ⟨hnil, hreserved, hdecode⟩ := hverb
  unfold Template.rawParts
  by_cases hverb : verb = []
  · have hslash : ∀ part ∈ parts, slash ∉ part := fun part hpart => (hparts part hpart).slash_notMem
    simp [pathWith, hverb, hnil.mp hverb, split_join hslash hne]
  · have hcut : cutLast colon (parts.getLast hne ++ colon :: verb) =
      some (parts.getLast hne, verb) :=
      cutLast_append fun hmem => hreserved colon hmem (by decide)
    have hne' : t.verb ≠ [] := fun h => hverb (hnil.mpr h)
    simp only [hne', split_pathWith hne hparts hverb hreserved, List.getLast?_append,
      List.getLast?_singleton, Option.some_or, Option.getD_some, hcut, hdecode hverb, ok_bind,
      List.dropLast_concat, ne_eq]
    exact congrArg Except.ok (List.dropLast_append_getLast hne)

end Keelith.Http

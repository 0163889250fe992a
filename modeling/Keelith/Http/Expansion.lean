import Keelith.Http.TemplateLemmas

/-!
# Matching undoes expanding

`Expand` writes the segments of a path one after the other, and `Match` reads them in the same
order: a literal as it is, `*` and `**` escaped. A value is split at its slashes and joined again; a
single `*` escapes the whole value. `**` takes all segments that are left, so its variable is the
last segment of the template.

`matchSegments_expand` is the induction over the segments of a template, `matchPattern_expand` the
one over a pattern.
-/

namespace Keelith.Http

open Bytes

/-! ## Segments that `Expand` writes -/

variable {parts expanded : List Bytes} {v : Variable} {value : Bytes}

/-- `**` writes each nonempty segment. -/
theorem expandRest_eq_ok : expandRest v value parts = .ok expanded ↔
    (∀ part ∈ parts, part ≠ []) ∧ expanded = parts.map encodePathSegment := by
  induction parts generalizing expanded with
  | nil => simp [expandRest]
  | cons part parts ih =>
    rw [expandRest, guard_eq_ok, bind_eq_ok, List.forall_mem_cons]
    constructor
    · rintro ⟨hne, rest, hrest, h⟩
      obtain ⟨hparts, rfl⟩ := ih.mp hrest
      exact ⟨⟨hne, hparts⟩, (Except.ok.inj h).symm⟩
    · rintro ⟨⟨hne, hparts⟩, rfl⟩
      exact ⟨hne, _, ih.mpr ⟨hparts, rfl⟩, rfl⟩

theorem expandRest_partOk (h : expandRest v value parts = .ok expanded) :
    ∀ part ∈ expanded, PartOk part := by
  obtain ⟨hne, rfl⟩ := expandRest_eq_ok.mp h
  exact List.forall_mem_map.mpr fun part hpart => partOk_encode (hne part hpart)

variable {pattern : List PatternSegment}
  {segments : List Segment} {rest : List Bytes} {t : Template}

theorem expandPattern_partOk (hpattern : PatternOk pattern)
    (h : expandPattern v value pattern parts = .ok expanded) : ∀ part ∈ expanded, PartOk part := by
  induction hpattern generalizing parts expanded with
  | nil =>
    cases parts with
    | nil =>
      obtain rfl : [] = expanded := Except.ok.inj h
      simp
    | cons part parts => cases h
  | literal hraw _ ih =>
    cases parts with
    | nil => cases h
    | cons part parts =>
      obtain ⟨-, h⟩ := guard_eq_ok.mp h
      obtain ⟨rest, hrest, hcons⟩ := bind_eq_ok.mp h
      obtain rfl : _ = expanded := Except.ok.inj hcons
      exact List.forall_mem_cons.mpr ⟨hraw.partOk, ih hrest⟩
  | single _ ih =>
    cases parts with
    | nil => cases h
    | cons part parts =>
      obtain ⟨hne, h⟩ := guard_eq_ok.mp h
      obtain ⟨rest, hrest, hcons⟩ := bind_eq_ok.mp h
      obtain rfl : _ = expanded := Except.ok.inj hcons
      exact List.forall_mem_cons.mpr ⟨partOk_encode hne, ih hrest⟩
  | multi =>
    obtain ⟨rest, hrest, happend⟩ := bind_eq_ok.mp h
    obtain rfl : rest ++ [] = expanded := Except.ok.inj happend
    rw [List.append_nil]
    exact expandRest_partOk hrest

theorem expandVariable_partOk (hpattern : PatternOk v.pattern)
    (h : expandVariable v value = .ok expanded) : ∀ part ∈ expanded, PartOk part := by
  unfold expandVariable at h
  split at h
  · obtain ⟨hne, h⟩ := guard_eq_ok.mp h
    obtain rfl : _ = expanded := Except.ok.inj h
    simpa using partOk_encode hne
  · exact expandPattern_partOk hpattern h

theorem expandSegments_partOk {values : Map Bytes Bytes}
    (hsegments : SegmentsOk segments) (h : expandSegments values segments = .ok parts) :
    ∀ part ∈ parts, PartOk part := by
  induction hsegments generalizing parts with
  | nil =>
    obtain rfl : [] = parts := Except.ok.inj h
    simp
  | literal hraw _ ih =>
    obtain ⟨rest, hrest, hcons⟩ := bind_eq_ok.mp h
    obtain rfl : _ = parts := Except.ok.inj hcons
    exact List.forall_mem_cons.mpr ⟨hraw.partOk, ih hrest⟩
  | @capture v segments hpattern _ _ _ _ ih =>
    rw [expandSegments] at h
    split at h
    · cases h
    · obtain ⟨expanded, hexpanded, h⟩ := bind_eq_ok.mp h
      obtain ⟨rest, hrest, happend⟩ := bind_eq_ok.mp h
      obtain rfl : _ = parts := Except.ok.inj happend
      exact List.forall_mem_append.mpr ⟨expandVariable_partOk hpattern hexpanded, ih hrest⟩

/-! ## Reading them again -/

theorem matchLiteral_self {raw : Bytes} (h : IsLiteral raw) : matchLiteral raw raw = .ok () := by
  simp [matchLiteral, h.decode]

/-- The segments of a value that `**` takes. -/
theorem decodeParts_expandRest
    (hvalid : ∀ part ∈ parts, utf8Valid part = true) (hslash : ∀ part ∈ parts, slash ∉ part)
    (h : expandRest v value parts = .ok expanded) : decodeParts expanded = .ok parts := by
  obtain ⟨hne, rfl⟩ := expandRest_eq_ok.mp h
  clear h
  induction parts with
  | nil => rfl
  | cons part parts ih =>
    rw [List.forall_mem_cons] at hne hvalid hslash
    rw [List.map_cons, decodeParts, if_neg (encodePathSegment_ne_nil hne.1),
      decodePathSegment_encode hvalid.1 fun _ => hslash.1, ok_bind, ih hvalid.2 hslash.2 hne.2,
        ok_bind]

theorem expandRest_ne_nil (h : expandRest v value parts = .ok expanded) :
    expanded ≠ [[]] ∧ (∀ part ∈ parts, part ≠ []) := by
  refine ⟨fun heq => ?_, (expandRest_eq_ok.mp h).1⟩
  exact (expandRest_partOk h [] (by simp [heq])).1 rfl

theorem join_ne_nil (hne : parts ≠ []) (h : ∀ part ∈ parts, part ≠ []) : join slash parts ≠ [] := by
  obtain ⟨part, parts, rfl⟩ := List.exists_cons_of_ne_nil hne
  have hpart := h part (by simp)
  by_cases hrest : parts = []
  · simpa [hrest] using hpart
  · rw [join_cons hrest]
    simp

/-- The value of `**` stands for its segments. -/
theorem join_append_rest (init : List Bytes) (h : ∀ part ∈ parts, part ≠ []) :
    join slash (init ++ if join slash parts ≠ [] then [join slash parts] else []) =
      join slash (init ++ parts) := by
  by_cases hne : parts = []
  · simp [hne]
  · rw [if_pos (join_ne_nil hne h)]
    by_cases hinit : init = []
    · simp [hinit]
    · rw [join_append hinit (by simp), join_append hinit hne, join_singleton]

/-- A pattern reads what it has written, and leaves the rest; a pattern with `**` leaves nothing. -/
theorem matchPattern_expand (hpattern : PatternOk pattern)
    (hvalid : ∀ part ∈ parts, utf8Valid part = true) (hslash : ∀ part ∈ parts, slash ∉ part)
    (h : expandPattern v value pattern parts = .ok expanded)
    (hrest : .multi ∈ pattern → rest = []) :
    ∃ valueParts, matchPattern v pattern (expanded ++ rest) = .ok (valueParts, rest) ∧
      ∀ init, join slash (init ++ valueParts) = join slash (init ++ parts) := by
  induction hpattern generalizing parts expanded with
  | nil =>
    cases parts with
    | nil =>
      obtain rfl : [] = expanded := Except.ok.inj h
      exact ⟨[], rfl, fun _ => rfl⟩
    | cons part parts => cases h
  | @literal raw pattern hraw _ ih =>
    cases parts with
    | nil => cases h
    | cons part parts =>
      obtain ⟨hpart, h⟩ := guard_eq_ok.mp h
      obtain ⟨tail, htail, hcons⟩ := bind_eq_ok.mp h
      obtain rfl : _ = expanded := Except.ok.inj hcons
      rw [List.forall_mem_cons] at hvalid hslash
      obtain ⟨valueParts, hmatch, hjoin⟩ :=
        ih hvalid.2 hslash.2 htail fun hmem => hrest (List.mem_cons_of_mem _ hmem)
      refine ⟨decodedLiteral raw :: valueParts, ?_, fun init => ?_⟩
      · rw [List.cons_append, matchPattern, matchLiteral_self hraw, ok_bind, hmatch, ok_bind]
      · rw [← not_not.mp hpart]
        simpa using hjoin (init ++ [part])
  | @single pattern _ ih =>
    cases parts with
    | nil => cases h
    | cons part parts =>
      obtain ⟨hne, h⟩ := guard_eq_ok.mp h
      obtain ⟨tail, htail, hcons⟩ := bind_eq_ok.mp h
      obtain rfl : _ = expanded := Except.ok.inj hcons
      rw [List.forall_mem_cons] at hvalid hslash
      obtain ⟨valueParts, hmatch, hjoin⟩ :=
        ih hvalid.2 hslash.2 htail fun hmem => hrest (List.mem_cons_of_mem _ hmem)
      refine ⟨part :: valueParts, ?_, fun init => by simpa using hjoin (init ++ [part])⟩
      rw [List.cons_append, matchPattern, if_neg (encodePathSegment_ne_nil hne),
        decodePathSegment_encode hvalid.1 (by simp), ok_bind, hmatch, ok_bind]
  | multi =>
    obtain rfl : rest = [] := hrest (by simp)
    obtain ⟨tail, htail, happend⟩ := bind_eq_ok.mp h
    obtain rfl : tail ++ [] = expanded := Except.ok.inj happend
    obtain ⟨hempty, hne⟩ := expandRest_ne_nil htail
    refine ⟨if join slash parts ≠ [] then [join slash parts] else [], ?_, fun init =>
      join_append_rest init hne⟩
    have hvalue : decodeMultiPath tail = .ok (join slash parts) := by
      rw [decodeMultiPath, if_neg hempty, decodeParts_expandRest hvalid hslash htail, ok_bind]
    simp [matchPattern, hvalue]

theorem matchVariable_expand (hpattern : PatternOk v.pattern) (hvalid : utf8Valid value = true)
    (h : expandVariable v value = .ok expanded) (hrest : .multi ∈ v.pattern → rest = []) :
    matchVariable v (expanded ++ rest) = .ok (value, rest) := by
  unfold expandVariable at h
  unfold matchVariable
  split at h
  next hsingle =>
    obtain ⟨hne, h⟩ := guard_eq_ok.mp h
    obtain rfl : _ = expanded := Except.ok.inj h
    have hdecode : decodePathSegment (encodePathSegment value) false = .ok value :=
      decodePathSegment_encode hvalid (by simp)
    simp [hsingle, encodePathSegment_ne_nil hne, hdecode]
  next hsingle =>
    obtain ⟨valueParts, hmatch, hjoin⟩ := matchPattern_expand hpattern
      (fun part hpart => utf8Valid_of_mem_split (by decide) hvalid hpart)
      (fun part hpart => notMem_of_mem_split hpart) h hrest
    have hvalue : join slash valueParts = value := by simpa using hjoin []
    simp [hsingle, hmatch, hvalue]

/-- The values of the variables of some segments. -/
def assign (values : Map Bytes Bytes) (acc : Map Bytes Bytes) (v : Variable) : Map Bytes Bytes :=
  acc.insert v.fieldPath ((values.lookup v.fieldPath).getD [])

theorem variables_cons (v : Variable) (segments : List Segment) :
    (Segment.variable v :: segments).filterMap Segment.variable? =
      v :: segments.filterMap Segment.variable? := rfl

theorem matchSegments_expand {values : Map Bytes Bytes} (hsegments : SegmentsOk segments)
    (hvalid : ∀ key value, values.lookup key = some value → utf8Valid value = true)
    (h : expandSegments values segments = .ok parts) (acc : Map Bytes Bytes) :
    matchSegments acc segments parts =
      .ok ((segments.filterMap Segment.variable?).foldl (assign values) acc) := by
  induction hsegments generalizing parts acc with
  | nil =>
    obtain rfl : [] = parts := Except.ok.inj h
    rfl
  | literal hraw _ ih =>
    obtain ⟨rest, hrest, hcons⟩ := bind_eq_ok.mp h
    obtain rfl : _ = parts := Except.ok.inj hcons
    rw [matchSegments, matchLiteral_self hraw, ih hrest]
    rfl
  | @capture v segments hpattern _ _ hmulti _ ih =>
    rw [expandSegments] at h
    split at h
    · cases h
    next value hvalue =>
      obtain ⟨expanded, hexpanded, h⟩ := bind_eq_ok.mp h
      obtain ⟨rest, hrest, happend⟩ := bind_eq_ok.mp h
      obtain rfl : _ = parts := Except.ok.inj happend
      have hlast : .multi ∈ v.pattern → rest = [] := by
        intro hmem
        rw [hmulti hmem] at hrest
        exact (Except.ok.inj hrest).symm
      simp only [matchSegments, matchVariable_expand hpattern (hvalid _ _ hvalue) hexpanded hlast,
        ok_bind, ih hrest]
      rw [variables_cons, List.foldl_cons, assign, hvalue, Option.getD_some]

theorem lookup_foldl_assign (values : Map Bytes Bytes) (vs : List Variable) (acc : Map Bytes Bytes)
    (key : Bytes) : (vs.foldl (assign values) acc).lookup key =
      if key ∈ vs.map Variable.fieldPath then some ((values.lookup key).getD []) else
        acc.lookup key := by
  induction vs generalizing acc with
  | nil => simp
  | cons v vs ih =>
    rw [List.foldl_cons, ih, assign]
    by_cases hkey : key = v.fieldPath
    · subst hkey
      simp
    · simp [hkey]

/-- The assignment of the variables of a template. -/
theorem foldl_assign_eq {values : Map Bytes Bytes} {vs : List Variable}
    (hdomain : ∀ key, key ∈ values ↔ key ∈ vs.map Variable.fieldPath) :
    vs.foldl (assign values) ∅ = values := by
  refine Finmap.ext_lookup fun key => ?_
  rw [lookup_foldl_assign]
  split
  next hkey =>
    obtain ⟨value, hvalue⟩ := Finmap.mem_iff.mp ((hdomain key).mpr hkey)
    rw [hvalue, Option.getD_some]
  next hkey => rw [Finmap.lookup_empty, Finmap.lookup_eq_none.mpr fun hmem =>
    hkey ((hdomain key).mp hmem)]

theorem spells_self (ht : t.WellFormed) : Spells t.verb t := by
  rcases ht.verb with hverb | hverb
  · simp [Spells, hverb]
  · exact ⟨Iff.rfl, hverb.notMem_reserved, fun _ => hverb.decode⟩

theorem WellFormed.matchPath_expand (ht : t.WellFormed) {values : Map Bytes Bytes}
    (hdomain : ∀ key, key ∈ values ↔ key ∈ t.variables.map Variable.fieldPath)
    (hvalid : ∀ key value, values.lookup key = some value → utf8Valid value = true) {path : Bytes}
    (h : t.expand values = .ok path) : t.matchPath path = .ok values := by
  obtain ⟨parts, hparts, h⟩ := bind_eq_ok.mp h
  obtain ⟨hne, h⟩ := guard_eq_ok.mp h
  obtain rfl : pathWith parts t.verb = path := Except.ok.inj h
  have hpartOk := expandSegments_partOk ht.segments hparts
  have hspells := spells_self ht
  rw [Template.matchPath, pathWith_valid hpartOk hspells.2.1, rawParts_path hne hpartOk hspells,
    ok_bind, matchSegments_expand ht.segments hvalid hparts]
  exact congrArg Except.ok (foldl_assign_eq hdomain)

/-- **Matching undoes expanding.** -/
theorem matchPath_of_expand {raw : Bytes} {t : Template} (hparse : parse raw = .ok t)
    {values : Map Bytes Bytes}
    (hdomain : ∀ key, key ∈ values ↔ key ∈ t.variables.map Variable.fieldPath)
    (hvalid : ∀ key value, values.lookup key = some value → utf8Valid value = true) {path : Bytes}
    (h : t.expand values = .ok path) : t.matchPath path = .ok values :=
  WellFormed.matchPath_expand (parse_wellFormed hparse) hdomain hvalid h

/-! ## A value with separators -/

namespace Separators

/-- A template with a single `*`, a pattern that ends in `**`, and a verb. -/
def raw : Bytes := ascii "/v1/\x7bid\x7d/\x7bname=shelves/*/books/**\x7d:move".toList

/-- What `Parse` makes of it. -/
def template : Template where
  segments :=
    [.literal (ascii ['v', '1']), .variable ⟨ascii ['i', 'd'], [.single], false⟩,
      .variable ⟨ascii ['n', 'a', 'm', 'e'], [.literal (ascii "shelves".toList), .single,
        .literal (ascii "books".toList), .multi], true⟩]
  verb := ascii ['m', 'o', 'v', 'e']

/-- Slashes, an escape that is text, a colon and a character of two bytes. -/
def values : Map Bytes Bytes :=
  ((∅ : Map Bytes Bytes).insert (ascii ['i', 'd']) (ascii "a/b:c".toList)).insert
    (ascii ['n', 'a', 'm', 'e'])
    (ascii "shelves/100%/books/%2F/x:".toList ++ [0xc3, 0xa9])

/-- What `Expand` makes of them. -/
def path : Bytes := ascii "/v1/a%2Fb%3Ac/shelves/100%25/books/%252F/x%3A%C3%A9:move".toList

theorem evaluated : parse raw = .ok template ∧ template.expand values = .ok path := by
  decide +kernel

theorem match_expanded : template.matchPath path = .ok values := by
  refine matchPath_of_expand evaluated.1 (fun key => ?_) (fun key value hvalue => ?_) evaluated.2
  · have hkeys : template.variables.map Variable.fieldPath =
      [ascii ['i', 'd'], ascii ['n', 'a', 'm', 'e']] := rfl
    rw [hkeys, values, Finmap.mem_insert, Finmap.mem_insert, List.mem_cons, List.mem_singleton]
    constructor
    · rintro (hname | hid | hmem)
      · exact .inr hname
      · exact .inl hid
      · exact absurd hmem Finmap.notMem_empty
    · rintro (hid | hname)
      · exact .inr (.inl hid)
      · exact .inl hname
  · rw [values, Map.lookup_insert_eq, Map.lookup_insert_eq] at hvalue
    split at hvalue
    · obtain rfl := Option.some.inj hvalue
      decide
    · split at hvalue
      · obtain rfl := Option.some.inj hvalue
        decide
      · simp at hvalue

end Separators

end Keelith.Http

import Keelith.Lib.Text

/-!
# JSON text of Go's `encoding/json`

What `json.Marshal` writes for strings, string slices and integers, with its HTML escapes.

* `jsonString`: a quoted string. `utf8ByteSize_jsonString` bounds its size.
* `jsonStrings`: a `[]string`; a nil slice is `null`.
* `Delimited`: a text says where it ends, as that of a string does (`jsonString_delimited`);
  `elements_delimited` is the rule for slices, `digits_delimited` the one for numbers.
-/

namespace Keelith

/-- The escape of a character: quotes and backslashes, control characters, the HTML characters, and
the two line separators of JavaScript. -/
def jsonChar (c : Char) : List Char :=
  if c = '"' then ['\\', '"']
  else if c = '\\' then ['\\', '\\']
  else if c.toNat = 8 then ['\\', 'b']
  else if c.toNat = 12 then ['\\', 'f']
  else if c.toNat = 10 then ['\\', 'n']
  else if c.toNat = 13 then ['\\', 'r']
  else if c.toNat = 9 then ['\\', 't']
  else if c.toNat < 0x20 || c = '<' || c = '>' || c = '&' then
    ['\\', 'u', '0', '0', hexDigit (c.toNat / 16), hexDigit (c.toNat % 16)]
  else if c.toNat = 0x2028 then ['\\', 'u', '2', '0', '2', '8']
  else if c.toNat = 0x2029 then ['\\', 'u', '2', '0', '2', '9']
  else [c]

/-- A string. -/
def jsonString (s : String) : String := String.ofList ('"' :: s.toList.flatMap jsonChar ++ ['"'])

/-- The elements, separated by commas. -/
def jsonElements : List String → String
  | [] => ""
  | [x] => x
  | x :: xs => x ++ "," ++ jsonElements xs

/-- A slice of strings; nil if it is empty. -/
def jsonStrings (values : List String) : String :=
  if values.isEmpty then "null" else "[" ++ jsonElements (values.map jsonString) ++ "]"

/-! ## The size of a string -/

theorem toNat_lt_of_escaped {c : Char}
    (h : (c.toNat < 0x20 || c = '<' || c = '>' || c = '&') = true) : c.toNat < 256 := by
  simp only [Bool.or_eq_true, decide_eq_true_eq] at h
  rcases h with ((h | rfl) | rfl) | rfl
  · omega
  all_goals decide

/-- A character is written as it is, or as at most six plain characters. -/
theorem jsonChar_cases (c : Char) :
    jsonChar c = [c] ∨ (Plain (jsonChar c) ∧ (jsonChar c).length ≤ 6) := by
  fun_cases jsonChar c
  case case8 h8 =>
    have hlt := toNat_lt_of_escaped h8
    have hhigh := hexDigit_isPlain (c.toNat / 16) (by omega)
    have hlow := hexDigit_isPlain (c.toNat % 16) (by omega)
    have hescape : Plain ['\\', 'u', '0', '0'] := plain_of_all (by decide)
    refine .inr ⟨hescape.append (m := [_, _]) ?_, by simp⟩
    simp [Plain, hhigh, hlow]
  case case11 => exact .inl rfl
  all_goals exact .inr ⟨plain_of_all (by decide), by decide⟩

theorem utf8Len_jsonChar (c : Char) : String.utf8Len (jsonChar c) ≤ 6 * c.utf8Size := by
  have hpos := c.utf8Size_pos
  rcases jsonChar_cases c with h | ⟨hplain, hlen⟩
  · rw [h, String.utf8Len_cons, String.utf8Len_nil]
    omega
  · rw [← String.utf8ByteSize_ofList, utf8ByteSize_of_plain hplain]
    omega

theorem utf8Len_flatMap_jsonChar (l : List Char) :
    String.utf8Len (l.flatMap jsonChar) ≤ 6 * String.utf8Len l := by
  induction l with
  | nil => simp
  | cons c l ih =>
    have := utf8Len_jsonChar c
    rw [List.flatMap_cons, String.utf8Len_append, String.utf8Len_cons]
    omega

theorem utf8ByteSize_jsonString (s : String) :
    (jsonString s).utf8ByteSize ≤ 6 * s.utf8ByteSize + 2 := by
  have hs : s.utf8ByteSize = String.utf8Len s.toList := by
    rw [← String.utf8ByteSize_ofList, String.ofList_toList]
  have hquote : '"'.utf8Size = 1 := by decide
  have := utf8Len_flatMap_jsonChar s.toList
  rw [jsonString, String.utf8ByteSize_ofList, String.utf8Len_append, String.utf8Len_cons,
    String.utf8Len_cons, String.utf8Len_nil]
  omega

/-! ## Numbers -/

/-- The digits of a number end at a character that is none. -/
theorem digits_delimited {m n : Nat} {c : Char} (hc : c.isDigit = false) {x y : List Char}
    (h : (toString m).toList ++ c :: x = (toString n).toList ++ c :: y) : m = n ∧ x = y := by
  have hnot (k : Nat) : c ∉ (toString k).toList := by
    rw [Nat.toString_eq_repr, Nat.toList_repr]
    intro hmem
    rw [Nat.isDigit_of_mem_toDigits (by decide) (by decide) hmem] at hc
    cases hc
  obtain ⟨hdigits, hxy⟩ := append_separator_inj (hnot m) (hnot n) h
  rw [Nat.toString_eq_repr, Nat.toString_eq_repr, Nat.toList_repr, Nat.toList_repr] at hdigits
  rw [← Nat.ofDigitChars_ten_toDigits (n := m), hdigits, Nat.ofDigitChars_ten_toDigits]
  exact ⟨rfl, hxy⟩

/-! ## Texts that say where they end -/

/-- No text is the beginning of another. -/
def Delimited {α : Type} (write : α → String) : Prop :=
  ∀ ⦃a b : α⦄ ⦃x y : List Char⦄, (write a).toList ++ x = (write b).toList ++ y → a = b ∧ x = y

/-- The first character of an escaped text, and the rest. -/
def unescape : List Char → Option (Char × List Char)
  | '\\' :: '"' :: rest => some ('"', rest)
  | '\\' :: '\\' :: rest => some ('\\', rest)
  | '\\' :: 'b' :: rest => some (Char.ofNat 8, rest)
  | '\\' :: 'f' :: rest => some (Char.ofNat 12, rest)
  | '\\' :: 'n' :: rest => some (Char.ofNat 10, rest)
  | '\\' :: 'r' :: rest => some (Char.ofNat 13, rest)
  | '\\' :: 't' :: rest => some (Char.ofNat 9, rest)
  | '\\' :: 'u' :: a :: b :: c :: d :: rest => do
    let a ← hexValue a
    let b ← hexValue b
    let c ← hexValue c
    let d ← hexValue d
    some (Char.ofNat (((a * 16 + b) * 16 + c) * 16 + d), rest)
  | c :: rest => some (c, rest)
  | [] => none

theorem unescape_jsonChar (c : Char) (rest : List Char) :
    unescape (jsonChar c ++ rest) = some (c, rest) := by
  have hof {n : Nat} (h : c.toNat = n) : Char.ofNat n = c := by rw [← h, Char.ofNat_toNat]
  fun_cases jsonChar c
  case case1 h | case2 h => subst h; rfl
  case case8 h =>
    have hlt := toNat_lt_of_escaped h
    have hhigh := hexValue_hexDigit (c.toNat / 16) (by omega)
    have hlow := hexValue_hexDigit (c.toNat % 16) (by omega)
    have hzero : hexValue '0' = some 0 := rfl
    have hvalue : ((0 * 16 + 0) * 16 + c.toNat / 16) * 16 + c.toNat % 16 = c.toNat := by omega
    simp only [List.cons_append, List.nil_append, unescape, hhigh, hlow, hzero, Option.bind_eq_bind,
      Option.bind_some, hvalue, Char.ofNat_toNat]
  case case11 hquote hescape _ _ _ _ _ _ _ _ =>
    unfold unescape
    split <;> simp_all
  case case3 h | case4 h | case5 h | case6 h | case7 h | case9 h | case10 h => rw [← hof h]; rfl

theorem quote_ne_jsonChar (c : Char) (x y : List Char) : '"' :: x ≠ jsonChar c ++ y := by
  intro h
  have hread : some ('"', x) = some (c, y) := (congrArg unescape h).trans (unescape_jsonChar c y)
  obtain rfl : '"' = c := congrArg Prod.fst (Option.some.inj hread)
  exact absurd (List.cons.inj h).1 (by decide)

/-- The escapes of a string end at the quote. -/
theorem flatMap_jsonChar_delimited {u v x y : List Char}
    (h : u.flatMap jsonChar ++ '"' :: x = v.flatMap jsonChar ++ '"' :: y) : u = v ∧ x = y := by
  induction u generalizing v with
  | nil =>
    cases v with
    | nil => exact ⟨rfl, (List.cons.inj h).2⟩
    | cons d v =>
      rw [List.flatMap_cons, List.append_assoc] at h
      exact absurd h (quote_ne_jsonChar d _ _)
  | cons c u ih =>
    rw [List.flatMap_cons, List.append_assoc] at h
    cases v with
    | nil => exact absurd h.symm (quote_ne_jsonChar c _ _)
    | cons d v =>
      rw [List.flatMap_cons, List.append_assoc] at h
      have hread := congrArg unescape h
      rw [unescape_jsonChar, unescape_jsonChar] at hread
      obtain ⟨rfl, hrest⟩ := Prod.mk.inj (Option.some.inj hread)
      obtain ⟨rfl, hxy⟩ := ih hrest
      exact ⟨rfl, hxy⟩

theorem jsonString_delimited : Delimited jsonString := by
  intro a b x y h
  simp only [jsonString, String.toList_ofList, List.cons_append, List.append_assoc, List.cons.injEq,
    true_and] at h
  obtain ⟨hab, hxy⟩ := flatMap_jsonChar_delimited h
  exact ⟨String.toList_injective hab, hxy⟩

/-- Elements end at the bracket. -/
theorem elements_delimited {α : Type} {write : α → String} (hwrite : Delimited write) {a b : α}
    {l m : List α} {x y : List Char} (h : (jsonElements ((a :: l).map write)).toList ++ ']' :: x =
      (jsonElements ((b :: m).map write)).toList ++ ']' :: y) : a :: l = b :: m ∧ x = y := by
  have hcons (c d : α) (l : List α) (z : List Char) :
      (jsonElements ((c :: d :: l).map write)).toList ++ z =
        (write c).toList ++ ',' :: ((jsonElements ((d :: l).map write)).toList ++ z) := by
    simp [jsonElements]
  induction l generalizing a b m with
  | nil =>
    cases m with
    | nil =>
      obtain ⟨rfl, htail⟩ := hwrite h
      exact ⟨rfl, (List.cons.inj htail).2⟩
    | cons c m =>
      rw [hcons] at h
      exact absurd (List.cons.inj (hwrite h).2).1 (by decide)
  | cons d l ih =>
    rw [hcons] at h
    cases m with
    | nil => exact absurd (List.cons.inj (hwrite h).2).1 (by decide)
    | cons c m =>
      rw [hcons] at h
      obtain ⟨rfl, htail⟩ := hwrite h
      obtain ⟨hrest, hxy⟩ := ih (List.cons.inj htail).2
      exact ⟨congrArg (a :: ·) hrest, hxy⟩

end Keelith

import Mathlib.Data.String.Basic
import Mathlib.Data.List.DropRight
import Keelith.Lib.Sha256

/-!
# Text: trimming, control characters and hexadecimal

A Go string that holds valid UTF-8 is a Lean `String`; `len` is its number of UTF-8 bytes
(`utf8ByteSize`). The functions of `strings`, `unicode` and `encoding/hex` that the sources use on
identities and digests:

* `isSpace`, `isControl`, `trimSpace`: `unicode.IsSpace`, `unicode.IsControl`, `strings.TrimSpace`;
* `boundedText`: the check of an identity;
* `hexEncode`, `hexDecodes`: `hex.EncodeToString`, and whether `hex.DecodeString` succeeds.

`Plain l` is the closure property behind the derived identities of the sources: printable ASCII
characters without a blank, so that trimming, the control check and the byte count are trivial.
-/

namespace Keelith

/-- `unicode.IsSpace`: the code points with the property `White_Space`. -/
def isSpace (r : Char) : Bool :=
  let c := r.toNat
  (9 ≤ c && c ≤ 13) || c == 0x20 || c == 0x85 || c == 0xa0 || c == 0x1680 ||
    (0x2000 ≤ c && c ≤ 0x200a) || c == 0x2028 || c == 0x2029 || c == 0x202f || c == 0x205f ||
    c == 0x3000

/-- `unicode.IsControl`: the category `Cc`. -/
def isControl (r : Char) : Bool := r.toNat < 0x20 || (0x7f ≤ r.toNat && r.toNat < 0xa0)

/-- `strings.TrimSpace`. -/
def trimSpace (s : String) : String :=
  String.ofList ((s.toList.dropWhile isSpace).rdropWhile isSpace)

/-- The check of identities that several packages have, each under its own name: not empty, within
the bytes, no space around it, no control character. -/
def boundedText (value : String) (maximum : Nat) : Bool :=
  value != "" && value.utf8ByteSize ≤ maximum && trimSpace value == value &&
    value.toList.all fun r => !isControl r

/-- The UTF-8 bytes of a string (`[]byte(s)`). -/
def bytesOf (s : String) : List UInt8 := s.toByteArray.data.toList

/-- The hexadecimal digit of `n < 16`, in lower case. -/
def hexDigit (n : Nat) : Char := "0123456789abcdef".toList.getD n '0'

/-- The hexadecimal digits of a byte list. -/
def hexDigits (bytes : List UInt8) : List Char :=
  bytes.flatMap fun b => [hexDigit (b.toNat / 16), hexDigit (b.toNat % 16)]

/-- `hex.EncodeToString`. -/
def hexEncode (bytes : List UInt8) : String := String.ofList (hexDigits bytes)

/-- A digit that `hex.DecodeString` accepts. -/
def isHexDigit (c : Char) : Bool :=
  ('0' ≤ c && c ≤ '9') || ('a' ≤ c && c ≤ 'f') || ('A' ≤ c && c ≤ 'F')

/-- `hex.DecodeString` succeeds. -/
def hexDecodes (s : String) : Bool :=
  s.toList.length % 2 == 0 && s.toList.all isHexDigit

/-- The value of a hexadecimal digit of either case. -/
def hexValue (c : Char) : Option Nat :=
  if '0' ≤ c && c ≤ '9' then some (c.toNat - 48)
  else if 'a' ≤ c && c ≤ 'f' then some (c.toNat - 87)
  else if 'A' ≤ c && c ≤ 'F' then some (c.toNat - 55)
  else none

/-! ## Plain text -/

/-- A printable ASCII character that is not a blank. -/
def isPlain (c : Char) : Bool := 0x21 ≤ c.toNat && c.toNat < 0x7f

/-- Every character is plain. -/
def Plain (l : List Char) : Prop := ∀ c ∈ l, isPlain c = true

variable {l : List Char} {c : Char} {first second : List UInt8}

/-- A literal is checked character by character. -/
theorem plain_of_all (h : l.all isPlain = true) : Plain l := List.all_eq_true.mp h

theorem Plain.append {m : List Char} (hl : Plain l) (hm : Plain m) : Plain (l ++ m) :=
  List.forall_mem_append.mpr ⟨hl, hm⟩

theorem isSpace_of_plain (h : isPlain c = true) : isSpace c = false := by
  simp only [isPlain, Bool.and_eq_true, decide_eq_true_eq] at h
  simp [isSpace]
  omega

theorem isControl_of_plain (h : isPlain c = true) : isControl c = false := by
  simp only [isPlain, Bool.and_eq_true, decide_eq_true_eq] at h
  simp [isControl]
  omega

theorem utf8Size_of_plain (h : isPlain c = true) : c.utf8Size = 1 := by
  simp only [isPlain, Bool.and_eq_true, decide_eq_true_eq] at h
  rw [Char.utf8Size_eq_one_iff]
  have : c.val.toNat = c.toNat := rfl
  show c.toNat ≤ 127
  omega

/-- Trimming leaves plain text as it is. -/
theorem trimSpace_of_plain (h : Plain l) : trimSpace (String.ofList l) = String.ofList l := by
  have hd : l.dropWhile isSpace = l := by
    cases l with
    | nil => rfl
    | cons c l => simp [isSpace_of_plain (h c (by simp))]
  have hr : l.rdropWhile isSpace = l := by
    rw [List.rdropWhile_eq_self_iff]
    intro hne
    simp [isSpace_of_plain (h _ (List.getLast_mem hne))]
  rw [trimSpace, String.toList_ofList, hd, hr]

theorem utf8ByteSize_of_plain (h : Plain l) : (String.ofList l).utf8ByteSize = l.length := by
  rw [String.utf8ByteSize_ofList]
  induction l with
  | nil => rfl
  | cons c l ih =>
    rw [String.utf8Len_cons, ih fun d hd => h d (by simp [hd]), utf8Size_of_plain (h c (by simp)),
      List.length_cons]

/-! ## Hexadecimal text -/

theorem hexDigit_isPlain : ∀ n < 16, isPlain (hexDigit n) = true := by decide

theorem hexDigit_isHexDigit : ∀ n < 16, isHexDigit (hexDigit n) = true := by decide

theorem mem_hexDigits {bytes : List UInt8} (h : c ∈ hexDigits bytes) :
    ∃ n < 16, c = hexDigit n := by
  obtain ⟨b, -, hc⟩ := List.mem_flatMap.mp h
  have hb : b.toNat < 256 := b.toNat_lt
  rcases List.mem_cons.mp hc with rfl | hc
  · exact ⟨b.toNat / 16, by omega, rfl⟩
  · rw [List.mem_singleton] at hc
    exact ⟨b.toNat % 16, by omega, hc⟩

theorem hexDigits_plain (bytes : List UInt8) : Plain (hexDigits bytes) := by
  intro c hc
  obtain ⟨n, hn, rfl⟩ := mem_hexDigits hc
  exact hexDigit_isPlain n hn

@[simp] theorem length_hexDigits (bytes : List UInt8) :
    (hexDigits bytes).length = 2 * bytes.length := by
  induction bytes with
  | nil => rfl
  | cons b bytes ih =>
    rw [hexDigits, List.flatMap_cons, List.length_append, ← hexDigits]
    simp only [List.length_cons, List.length_nil]
    omega

theorem hexEncode_decodes (bytes : List UInt8) : hexDecodes (hexEncode bytes) = true := by
  simp only [hexDecodes, hexEncode, String.toList_ofList, length_hexDigits, Bool.and_eq_true,
    beq_iff_eq, List.all_eq_true]
  refine ⟨by omega, fun c hc => ?_⟩
  obtain ⟨n, hn, rfl⟩ := mem_hexDigits hc
  exact hexDigit_isHexDigit n hn

theorem utf8ByteSize_hexEncode (bytes : List UInt8) :
    (hexEncode bytes).utf8ByteSize = 2 * bytes.length := by
  rw [hexEncode, utf8ByteSize_of_plain (hexDigits_plain bytes), length_hexDigits]

theorem hexDigit_inj : ∀ m < 16, ∀ n < 16, hexDigit m = hexDigit n → m = n := by decide

theorem hexDigits_inj (h : hexDigits first = hexDigits second) : first = second := by
  induction first generalizing second with
  | nil =>
    cases second with
    | nil => rfl
    | cons c second => simp [hexDigits] at h
  | cons b first ih =>
    cases second with
    | nil => simp [hexDigits] at h
    | cons c second =>
      simp only [hexDigits, List.flatMap_cons, List.cons_append, List.cons.injEq] at h
      have hb : b.toNat < 256 := b.toNat_lt
      have hc : c.toNat < 256 := c.toNat_lt
      have hhigh := hexDigit_inj _ (by omega) _ (by omega) h.1
      have hlow := hexDigit_inj _ (by omega) _ (by omega) h.2.1
      rw [ih h.2.2, UInt8.toNat_inj.mp (by omega : b.toNat = c.toNat)]

theorem hexEncode_inj (h : hexEncode first = hexEncode second) : first = second :=
  hexDigits_inj (String.ofList_injective h)

theorem hexValue_hexDigit : ∀ n < 16, hexValue (hexDigit n) = some n := by decide

theorem bytesOf_inj {s t : String} (h : bytesOf s = bytesOf t) : s = t :=
  String.toByteArray_inj.mp (ByteArray.ext (Array.toList_inj.mp h))

/-- The text before the first separator. -/
theorem append_separator_inj {α : Type} {c : α} {u v x y : List α} (hu : c ∉ u) (hv : c ∉ v)
    (h : u ++ c :: x = v ++ c :: y) : u = v ∧ x = y := by
  induction u generalizing v with
  | nil =>
    cases v with
    | nil => exact ⟨rfl, (List.cons.inj h).2⟩
    | cons d v => exact absurd ((List.cons.inj h).1 ▸ List.mem_cons_self) hv
  | cons d u ih =>
    cases v with
    | nil => exact absurd ((List.cons.inj h).1 ▸ List.mem_cons_self) hu
    | cons d' v =>
      obtain ⟨rfl, hrest⟩ := List.cons.inj h
      obtain ⟨rfl, hxy⟩ := ih (List.not_mem_of_not_mem_cons hu)
        (List.not_mem_of_not_mem_cons hv) hrest
      exact ⟨rfl, hxy⟩

end Keelith

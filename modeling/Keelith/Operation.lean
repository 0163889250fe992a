import Keelith.Lib.Bytes

/-!
# Operations

`operation/operation.go`: what is called, and the escaped path of a text (`url.PathEscape`).
-/

namespace Keelith

/-- `operation.Kind`. -/
inductive Operation.Kind where
  /-- The kind of the zero value. -/
  | unset
  | unary
  | clientStream
  | serverStream
  | bidiStream
  | consumer
  | job
  deriving DecidableEq

/-- The text of a kind. -/
def Operation.Kind.text : Kind → String
  | .unset => ""
  | .unary => "unary"
  | .clientStream => "client-stream"
  | .serverStream => "server-stream"
  | .bidiStream => "bidi-stream"
  | .consumer => "consumer"
  | .job => "job"

/-- `operation.Operation`. -/
structure Operation where
  transport : Bytes
  service : Bytes
  method : Bytes
  kind : Operation.Kind
  deriving DecidableEq

namespace Operation

/-- A byte that `url.PathEscape` leaves as it is. -/
def unescaped (b : UInt8) : Bool :=
  let c := Char.ofNat b.toNat
  b < 0x80 && (c.isAlphanum || c ∈ ['-', '_', '.', '~', '$', '&', '+', ':', '=', '@'])

/-- What `url.PathEscape` writes for a byte. -/
def escapeByte (b : UInt8) : List Char :=
  let digit (n : Nat) : Char := "0123456789ABCDEF".toList.getD n '0'
  if unescaped b then [Char.ofNat b.toNat] else ['%', digit (b.toNat / 16), digit (b.toNat % 16)]

/-- `url.PathEscape`. -/
def pathEscape (text : Bytes) : String := String.ofList (text.flatMap escapeByte)

def policyKey (o : Operation) : String :=
  pathEscape o.transport ++ "/" ++ pathEscape o.service ++ "/" ++ pathEscape o.method ++ "/" ++
    pathEscape (bytesOf o.kind.text)

/-! ## Keys of operations -/

theorem escapeByte_ne_nil (b : UInt8) : escapeByte b ≠ [] := by
  unfold escapeByte
  split <;> simp

theorem toNat_ofNat {n : Nat} (h : n < 0x80) : (Char.ofNat n).toNat = n := by
  have hvalid : n.isValidChar := .inl (by omega)
  unfold Char.ofNat
  rw [dif_pos hvalid]
  rfl

/-- A byte that is not escaped is neither the escape nor the separator. -/
theorem toNat_of_unescaped {b : UInt8} (h : unescaped b = true) :
    b.toNat < 0x80 ∧ b.toNat ≠ '%'.toNat ∧ b.toNat ≠ '/'.toNat := by
  have hall : ∀ n < 0x80, unescaped (UInt8.ofNat n) = true → n ≠ '%'.toNat ∧
    n ≠ '/'.toNat := by decide
  have hlt : b.toNat < 0x80 := by
    simp only [unescaped, Bool.and_eq_true, decide_eq_true_eq] at h
    exact UInt8.lt_iff_toNat_lt.mp h.1
  exact ⟨hlt, hall b.toNat hlt (by simpa using h)⟩

theorem digit_inj : ∀ m < 16, ∀ n < 16,
    "0123456789ABCDEF".toList.getD m '0' = "0123456789ABCDEF".toList.getD n '0' → m = n := by decide

theorem slash_ne_digit : ∀ n < 16, "0123456789ABCDEF".toList.getD n '0' ≠ '/' := by decide

/-- What is written for a byte says where it ends. -/
theorem escapeByte_append_inj {a b : UInt8} {x y : List Char}
    (h : escapeByte a ++ x = escapeByte b ++ y) : a = b ∧ x = y := by
  have ha := a.toNat_lt
  have hb := b.toNat_lt
  unfold escapeByte at h
  split at h <;> split at h <;> simp only [List.cons_append, List.cons.injEq] at h
  next hua hub =>
    have hnat := congrArg Char.toNat h.1
    rw [toNat_ofNat (toNat_of_unescaped hua).1, toNat_ofNat (toNat_of_unescaped hub).1] at hnat
    exact ⟨UInt8.toNat_inj.mp hnat, h.2⟩
  next hua _ =>
    have hnat := congrArg Char.toNat h.1
    rw [toNat_ofNat (toNat_of_unescaped hua).1] at hnat
    exact absurd hnat (toNat_of_unescaped hua).2.1
  next _ hub =>
    have hnat := congrArg Char.toNat h.1
    rw [toNat_ofNat (toNat_of_unescaped hub).1] at hnat
    exact absurd hnat.symm (toNat_of_unescaped hub).2.1
  next =>
    obtain ⟨-, hhigh, hlow, hrest⟩ := h
    have := digit_inj _ (by omega) _ (by omega) hhigh
    have := digit_inj _ (by omega) _ (by omega) hlow
    exact ⟨UInt8.toNat_inj.mp (by omega), hrest⟩

theorem flatMap_escapeByte_inj {u v : List UInt8}
    (h : u.flatMap escapeByte = v.flatMap escapeByte) : u = v := by
  induction u generalizing v with
  | nil =>
    cases v with
    | nil => rfl
    | cons b v => exact absurd h.symm (by simp [escapeByte_ne_nil])
  | cons a u ih =>
    cases v with
    | nil => exact absurd h (by simp [escapeByte_ne_nil])
    | cons b v =>
      obtain ⟨rfl, hrest⟩ := escapeByte_append_inj h
      rw [ih hrest]

theorem pathEscape_inj {s t : Bytes} (h : pathEscape s = pathEscape t) : s = t :=
  flatMap_escapeByte_inj (String.ofList_injective h)

theorem slash_notMem_pathEscape (s : Bytes) : '/' ∉ (pathEscape s).toList := by
  rw [pathEscape, String.toList_ofList, List.mem_flatMap]
  rintro ⟨b, -, hb⟩
  have hlt := b.toNat_lt
  unfold escapeByte at hb
  split at hb
  next hu =>
    have hnat := congrArg Char.toNat (List.mem_singleton.mp hb)
    rw [toNat_ofNat (toNat_of_unescaped hu).1] at hnat
    exact absurd hnat.symm (toNat_of_unescaped hu).2.2
  next =>
    simp only [List.mem_cons, List.not_mem_nil, or_false] at hb
    rcases hb with hb | hb | hb
    · cases hb
    · exact slash_ne_digit _ (by omega) hb.symm
    · exact slash_ne_digit _ (by omega) hb.symm

theorem Kind.text_inj {a b : Kind} (h : a.text = b.text) : a = b := by
  cases a <;> cases b <;> first | rfl | exact absurd h (by decide)

/-- Different operations have different keys. -/
theorem policyKey_inj {a b : Operation} (h : a.policyKey = b.policyKey) : a = b := by
  obtain ⟨ta, sa, ma, ka⟩ := a
  have h := congrArg String.toList h
  simp only [policyKey, String.toList_append, List.append_assoc] at h
  have hslash : "/".toList = ['/'] := rfl
  obtain ⟨ht, h⟩ := append_separator_inj (slash_notMem_pathEscape _) (slash_notMem_pathEscape _) h
  obtain ⟨hs, h⟩ := append_separator_inj (slash_notMem_pathEscape _) (slash_notMem_pathEscape _) h
  obtain ⟨hm, hk⟩ := append_separator_inj (slash_notMem_pathEscape _) (slash_notMem_pathEscape _) h
  rw [pathEscape_inj (String.toList_injective ht), pathEscape_inj (String.toList_injective hs),
    pathEscape_inj (String.toList_injective hm),
    Kind.text_inj (bytesOf_inj (pathEscape_inj (String.toList_injective hk)))]

end Operation

end Keelith

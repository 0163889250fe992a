import Mathlib.Algebra.Group.Nat.Defs
import Mathlib.Data.List.Basic
import Mathlib.Data.Set.Function

/-!
# SHA-256 over byte lists

The hash function of Go's `crypto/sha256` (FIPS 180-4), as a computable function of the whole
message. The sources of this development hash length-prefixed parts (`writeDigestPart`), compare
digests and print them in hexadecimal; the model does the same with `sha256`.

- **Padding** (`pad`): the bit `1`, zero bits to 56 bytes modulo 64, then the length in bits as a
  big-endian 64-bit number.
- **Blocks** (`words`, `schedule`): 64 bytes are 16 big-endian words, extended to 64.
- **Compression** (`round`, `compress`): 64 rounds over the eight working words.

`CollisionFree` is the assumption a proof makes about the hash: no two different messages *of a
given set* collide. It is never made of all messages, where it is false.
-/

namespace Keelith

/-- The working words `a` to `h`. -/
structure Sha256State where
  a : UInt32
  b : UInt32
  c : UInt32
  d : UInt32
  e : UInt32
  f : UInt32
  g : UInt32
  h : UInt32
  deriving DecidableEq

namespace Sha256

/-- Rotate right by `n` bits. -/
def rotr (x n : UInt32) : UInt32 := (x >>> n) ||| (x <<< (32 - n))

/-- The round constants. -/
def roundConstants : List UInt32 := [
  0x428a2f98, 0x71374491, 0xb5c0fbcf, 0xe9b5dba5, 0x3956c25b, 0x59f111f1, 0x923f82a4, 0xab1c5ed5,
  0xd807aa98, 0x12835b01, 0x243185be, 0x550c7dc3, 0x72be5d74, 0x80deb1fe, 0x9bdc06a7, 0xc19bf174,
  0xe49b69c1, 0xefbe4786, 0x0fc19dc6, 0x240ca1cc, 0x2de92c6f, 0x4a7484aa, 0x5cb0a9dc, 0x76f988da,
  0x983e5152, 0xa831c66d, 0xb00327c8, 0xbf597fc7, 0xc6e00bf3, 0xd5a79147, 0x06ca6351, 0x14292967,
  0x27b70a85, 0x2e1b2138, 0x4d2c6dfc, 0x53380d13, 0x650a7354, 0x766a0abb, 0x81c2c92e, 0x92722c85,
  0xa2bfe8a1, 0xa81a664b, 0xc24b8b70, 0xc76c51a3, 0xd192e819, 0xd6990624, 0xf40e3585, 0x106aa070,
  0x19a4c116, 0x1e376c08, 0x2748774c, 0x34b0bcb5, 0x391c0cb3, 0x4ed8aa4a, 0x5b9cca4f, 0x682e6ff3,
  0x748f82ee, 0x78a5636f, 0x84c87814, 0x8cc70208, 0x90befffa, 0xa4506ceb, 0xbef9a3f7, 0xc67178f2]

/-- The initial hash value. -/
def initial : Sha256State :=
  ⟨0x6a09e667, 0xbb67ae85, 0x3c6ef372, 0xa54ff53a, 0x510e527f, 0x9b05688c, 0x1f83d9ab, 0x5be0cd19⟩

/-- `n` as `len` big-endian bytes. -/
def bigEndian (len n : Nat) : List UInt8 :=
  match len with
  | 0 => []
  | len + 1 => UInt8.ofNat (n / 256 ^ len) :: bigEndian len n

/-- The padded message: a whole number of 64-byte blocks. -/
def pad (message : List UInt8) : List UInt8 :=
  message ++ 0x80 :: List.replicate ((119 - message.length % 64) % 64) 0 ++
    bigEndian 8 (8 * message.length)

/-- Big-endian words of a byte list. -/
def words : List UInt8 → List UInt32
  | w :: x :: y :: z :: rest =>
    (w.toUInt32 <<< 24 ||| x.toUInt32 <<< 16 ||| y.toUInt32 <<< 8 ||| z.toUInt32) :: words rest
  | _ => []

/-- The message schedule in reverse order, extended by `n` words. -/
def extend : Nat → List UInt32 → List UInt32
  | 0, w => w
  | n + 1, w =>
    let w15 := w.getD 14 0
    let w2 := w.getD 1 0
    let s0 := rotr w15 7 ^^^ rotr w15 18 ^^^ (w15 >>> 3)
    let s1 := rotr w2 17 ^^^ rotr w2 19 ^^^ (w2 >>> 10)
    extend n ((w.getD 15 0 + s0 + w.getD 6 0 + s1) :: w)

/-- The 64 words of the message schedule of one block. -/
def schedule (block : List UInt8) : List UInt32 :=
  (extend 48 (words block).reverse).reverse

/-- One round with the constant `k` and the schedule word `w`. -/
def round (s : Sha256State) (k w : UInt32) : Sha256State :=
  let s1 := rotr s.e 6 ^^^ rotr s.e 11 ^^^ rotr s.e 25
  let ch := (s.e &&& s.f) ^^^ (~~~ s.e &&& s.g)
  let t1 := s.h + s1 + ch + k + w
  let s0 := rotr s.a 2 ^^^ rotr s.a 13 ^^^ rotr s.a 22
  let maj := (s.a &&& s.b) ^^^ (s.a &&& s.c) ^^^ (s.b &&& s.c)
  ⟨t1 + (s0 + maj), s.a, s.b, s.c, s.d + t1, s.e, s.f, s.g⟩

/-- The rounds of one block. -/
def rounds : List UInt32 → List UInt32 → Sha256State → Sha256State
  | k :: ks, w :: ws, s => rounds ks ws (round s k w)
  | _, _, s => s

/-- The compression of one block into the hash value. -/
def compress (s : Sha256State) (block : List UInt8) : Sha256State :=
  let r := rounds roundConstants (schedule block) s
  ⟨s.a + r.a, s.b + r.b, s.c + r.c, s.d + r.d, s.e + r.e, s.f + r.f, s.g + r.g, s.h + r.h⟩

/-- The compression of `n` blocks. -/
def blocks : Nat → List UInt8 → Sha256State → Sha256State
  | 0, _, s => s
  | n + 1, bytes, s => blocks n (bytes.drop 64) (compress s (bytes.take 64))

/-- The 32 bytes of a hash value. -/
def output (s : Sha256State) : List UInt8 :=
  [s.a, s.b, s.c, s.d, s.e, s.f, s.g, s.h].flatMap fun w => bigEndian 4 w.toNat

end Sha256

open Sha256 in
/-- `sha256.Sum256`: the 32-byte digest of a message. -/
@[irreducible] def sha256 (message : List UInt8) : List UInt8 :=
  let padded := pad message
  output (blocks (padded.length / 64) padded initial)

example : sha256 [97, 98, 99] =
    [0xba, 0x78, 0x16, 0xbf, 0x8f, 0x01, 0xcf, 0xea, 0x41, 0x41, 0x40, 0xde, 0x5d, 0xae, 0x22, 0x23,
     0xb0, 0x03, 0x61, 0xa3, 0x96, 0x17, 0x7a, 0x9c, 0xb4, 0x10, 0xff, 0x61, 0xf2, 0x00,
       0x15, 0xad] := by
  decide +kernel

/-- No two different messages of the set have one digest. -/
def CollisionFree (messages : Set (List UInt8)) : Prop := Set.InjOn sha256 messages

namespace Sha256

@[simp] theorem length_bigEndian (len n : Nat) : (bigEndian len n).length = len := by
  induction len with
  | zero => rfl
  | succ len ih => rw [bigEndian, List.length_cons, ih]

@[simp] theorem length_sha256 (message : List UInt8) : (sha256 message).length = 32 := by
  unfold sha256
  simp [output]

/-- Big-endian bytes determine a number that fits in them. -/
theorem bigEndian_inj {len m n : Nat} (hm : m < 256 ^ len) (hn : n < 256 ^ len)
    (h : bigEndian len m = bigEndian len n) : m = n := by
  suffices hmod : ∀ len, bigEndian len m = bigEndian len n → m % 256 ^ len = n % 256 ^ len by
    have := hmod len h
    rwa [Nat.mod_eq_of_lt hm, Nat.mod_eq_of_lt hn] at this
  clear hm hn h len
  intro len
  induction len with
  | zero => intro _; simp [Nat.mod_one]
  | succ len ih =>
    intro h
    rw [bigEndian, bigEndian] at h
    obtain ⟨hd, ht⟩ := List.cons.inj h
    have hd : m / 256 ^ len % 256 = n / 256 ^ len % 256 := by
      have := congrArg UInt8.toNat hd
      rwa [UInt8.toNat_ofNat', UInt8.toNat_ofNat'] at this
    rw [Nat.pow_succ, Nat.mod_mul, Nat.mod_mul, hd, ih ht]

end Sha256

end Keelith

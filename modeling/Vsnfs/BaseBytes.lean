import Mathlib.Algebra.Group.Int.Defs
import Mathlib.Algebra.GroupWithZero.Nat
import Mathlib.Data.List.Basic
import Mathlib.Data.Nat.Basic
import Mathlib.Tactic.Common

/-! Bytes, 32-bit words and the four-byte external data representation. A word in memory is four
bytes, the host being little-endian; a word on the wire is the same four bytes in the other order.
`take32` reads one word off the front of a byte string and fails when fewer than four bytes
are left, so a reader built from it cannot look behind the end of its input. -/

namespace Vsnfs.Base

abbrev Byte := BitVec 8

/-- Named so that every definition that searches a list of bytes refers to this one proof; without the name
each module makes its own. -/
instance lawfulBEqByte : LawfulBEq Byte := inferInstance

abbrev Word := BitVec 32

/-- The byte of weight `2 ^ (8 * index)`. -/
def byteOf (word : Word) (index : Nat) : Byte := BitVec.ofNat 8 (word.toNat / 2 ^ (8 * index))

/-- The word made of four bytes, least significant first. -/
def leWord (b0 b1 b2 b3 : Byte) : Word :=
  BitVec.ofNat 32 (b0.toNat + 2 ^ 8 * b1.toNat + 2 ^ 16 * b2.toNat + 2 ^ 24 * b3.toNat)

/-- The memory image of a word on a little-endian host. -/
def leBytes (word : Word) : List Byte := [byteOf word 0, byteOf word 1, byteOf word 2, byteOf word 3]

/-- The memory image of a word in network order. -/
def beBytes (word : Word) : List Byte := [byteOf word 3, byteOf word 2, byteOf word 1, byteOf word 0]

/-- The byte swap: `htonl`, `ntohl` and `cpu_to_be32` of a little-endian host. -/
def htonl (word : Word) : Word :=
  leWord (byteOf word 3) (byteOf word 2) (byteOf word 1) (byteOf word 0)

abbrev ntohl := htonl

/-- `htons` and `ntohs` of a little-endian host. -/
def htons (half : BitVec 16) : BitVec 16 := BitVec.ofNat 16 (half.toNat % 256 * 256 + half.toNat / 256)

abbrev ntohs := htons

theorem toNat_htons (half : BitVec 16) :
    (htons half).toNat = half.toNat % 256 * 256 + half.toNat / 256 := by
  have h := half.isLt
  rw [htons, BitVec.toNat_ofNat]
  omega

@[simp] theorem htons_htons (half : BitVec 16) : htons (htons half) = half := by
  apply BitVec.eq_of_toNat_eq
  rw [toNat_htons, toNat_htons]
  omega

theorem toNat_byteOf (word : Word) (index : Nat) :
    (byteOf word index).toNat = word.toNat / 2 ^ (8 * index) % 256 := by
  rw [byteOf, BitVec.toNat_ofNat]

theorem toNat_leWord (b0 b1 b2 b3 : Byte) :
    (leWord b0 b1 b2 b3).toNat =
      b0.toNat + 2 ^ 8 * b1.toNat + 2 ^ 16 * b2.toNat + 2 ^ 24 * b3.toNat := by
  have h0 := b0.isLt
  have h1 := b1.isLt
  have h2 := b2.isLt
  have h3 := b3.isLt
  rw [leWord, BitVec.toNat_ofNat]
  omega

theorem leWord_bytes (word : Word) :
    leWord (byteOf word 0) (byteOf word 1) (byteOf word 2) (byteOf word 3) = word := by
  apply BitVec.eq_of_toNat_eq
  have h := word.isLt
  simp only [toNat_leWord, toNat_byteOf]
  omega

theorem byteOf_leWord (b0 b1 b2 b3 : Byte) :
    byteOf (leWord b0 b1 b2 b3) 0 = b0 ∧ byteOf (leWord b0 b1 b2 b3) 1 = b1 ∧
      byteOf (leWord b0 b1 b2 b3) 2 = b2 ∧ byteOf (leWord b0 b1 b2 b3) 3 = b3 := by
  have h0 := b0.isLt
  have h1 := b1.isLt
  have h2 := b2.isLt
  have h3 := b3.isLt
  refine ⟨?_, ?_, ?_, ?_⟩ <;>
    (apply BitVec.eq_of_toNat_eq; simp only [toNat_byteOf, toNat_leWord]; omega)

/-- Storing a swapped word leaves its bytes in network order. -/
theorem leBytes_htonl (word : Word) : leBytes (htonl word) = beBytes word := by
  obtain ⟨h0, h1, h2, h3⟩ :=
    byteOf_leWord (byteOf word 3) (byteOf word 2) (byteOf word 1) (byteOf word 0)
  simp only [leBytes, beBytes, htonl, h0, h1, h2, h3]

@[simp] theorem htonl_htonl (word : Word) : htonl (htonl word) = word := by
  obtain ⟨h0, h1, h2, h3⟩ :=
    byteOf_leWord (byteOf word 3) (byteOf word 2) (byteOf word 1) (byteOf word 0)
  conv_lhs => rw [htonl]
  rw [show htonl word = leWord (byteOf word 3) (byteOf word 2) (byteOf word 1) (byteOf word 0) from rfl,
    h0, h1, h2, h3, leWord_bytes]

theorem htonl_injective {left right : Word} (h : htonl left = htonl right) : left = right := by
  rw [← htonl_htonl left, h, htonl_htonl]

theorem htonl_eq_zero_iff (word : Word) : htonl word = 0 ↔ word = 0 := by
  constructor
  · intro h
    exact htonl_injective (h.trans (by decide))
  · rintro rfl
    decide

theorem htonl_one_ne_zero : htonl 1 ≠ 0 := by decide

/-- The low byte of a swapped word is the high byte of the word. -/
theorem htonl_toNat_mod (word : Word) : (htonl word).toNat % 256 = word.toNat / 2 ^ 24 := by
  have h := word.isLt
  simp only [htonl, toNat_leWord, toNat_byteOf]
  omega

@[simp] theorem leBytes_length (word : Word) : (leBytes word).length = 4 := rfl

@[simp] theorem beBytes_length (word : Word) : (beBytes word).length = 4 := rfl

/-- Read one word in memory order from the front of a byte string. -/
def take32 : List Byte → Option (Word × List Byte)
  | b0 :: b1 :: b2 :: b3 :: rest => some (leWord b0 b1 b2 b3, rest)
  | _ => none

@[simp] theorem take32_leBytes (word : Word) (rest : List Byte) :
    take32 (leBytes word ++ rest) = some (word, rest) := by
  simp only [leBytes, List.cons_append, List.nil_append, take32, leWord_bytes]

theorem leBytes_injective {left right : Word} (h : leBytes left = leBytes right) : left = right := by
  have htake := take32_leBytes left []
  rw [h, take32_leBytes] at htake
  simpa using htake.symm

@[simp] theorem take32_beBytes (word : Word) (rest : List Byte) :
    take32 (beBytes word ++ rest) = some (htonl word, rest) := by
  rw [← leBytes_htonl, take32_leBytes]

/-- A word is read exactly when the input starts with its four bytes. -/
theorem take32_eq_some_iff (input : List Byte) (word : Word) (rest : List Byte) :
    take32 input = some (word, rest) ↔ input = leBytes word ++ rest := by
  constructor
  · intro h
    match input, h with
    | b0 :: b1 :: b2 :: b3 :: tail, h =>
        simp only [take32, Option.some.injEq, Prod.mk.injEq] at h
        obtain ⟨rfl, rfl⟩ := h
        obtain ⟨h0, h1, h2, h3⟩ := byteOf_leWord b0 b1 b2 b3
        simp only [leBytes, h0, h1, h2, h3, List.cons_append, List.nil_append]
  · rintro rfl
    exact take32_leBytes word rest

theorem take32_eq_none_iff (input : List Byte) : take32 input = none ↔ input.length < 4 := by
  match input with
  | [] => simp [take32]
  | [_] => simp [take32]
  | [_, _] => simp [take32]
  | [_, _, _] => simp [take32]
  | _ :: _ :: _ :: _ :: _ => simp [take32]

/-- Read a fixed number of bytes from the front of a byte string. -/
def takeBytes (count : Nat) (input : List Byte) : Option (List Byte × List Byte) :=
  if count ≤ input.length then some (input.take count, input.drop count) else none

theorem takeBytes_append (front rest : List Byte) :
    takeBytes front.length (front ++ rest) = some (front, rest) := by
  simp [takeBytes]

theorem takeBytes_eq_some {count : Nat} {input front rest : List Byte}
    (h : takeBytes count input = some (front, rest)) :
    input = front ++ rest ∧ front.length = count := by
  unfold takeBytes at h
  split at h
  · rename_i hle
    simp only [Option.some.injEq, Prod.mk.injEq] at h
    obtain ⟨rfl, rfl⟩ := h
    exact ⟨(List.take_append_drop count input).symm, List.length_take_of_le hle⟩
  · cases h

/-! ### Variable-length opaque data -/

/-- `XDR_QUADLEN` of an unsigned 32-bit length; the addition wraps. -/
def xdrQuadlen (len : Word) : Word := (len + 3) >>> 2

/-- The number of words `count` bytes fill. -/
def quadWords (count : Nat) : Nat := (count + 3) / 4

theorem toNat_xdrQuadlen (len : Word) : (xdrQuadlen len).toNat = (len.toNat + 3) % 2 ^ 32 / 4 := by
  rw [xdrQuadlen, BitVec.toNat_ushiftRight, BitVec.toNat_add, Nat.shiftRight_eq_div_pow]
  rfl

/-- Without a wrap the length in words is the rounded-up length. -/
theorem toNat_xdrQuadlen_of_lt {count : Nat} (h : count + 3 < 2 ^ 32) :
    (xdrQuadlen (BitVec.ofNat 32 count)).toNat = quadWords count := by
  rw [toNat_xdrQuadlen, BitVec.toNat_ofNat, quadWords]
  omega

/-- The number of bytes that pad `count` bytes to a word boundary. -/
def padLength (count : Nat) : Nat := 4 * quadWords count - count

theorem add_padLength (count : Nat) : count + padLength count = 4 * quadWords count := by
  simp only [padLength, quadWords]
  omega

/-- `xdr_encode_array`: a length word, the bytes, and zeros up to a word boundary. -/
def xdrEncodeArray (bytes : List Byte) : List Byte :=
  beBytes (BitVec.ofNat 32 bytes.length) ++ bytes ++ List.replicate (padLength bytes.length) 0

end Vsnfs.Base

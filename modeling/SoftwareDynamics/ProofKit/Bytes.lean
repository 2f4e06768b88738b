import Mathlib.Algebra.Ring.Nat
import Mathlib.Data.List.Basic

/-! Byte strings: numbers in little-endian order, strings of a fixed length, and the layout of a
record as the concatenation of its fields. -/

namespace SoftwareDynamics.ProofKit

abbrev Bytes := List UInt8

section Numbers

/-- The `n` low bytes of `x`, lowest first. -/
def leBytes : Nat → Nat → Bytes
  | 0, _ => []
  | n + 1, x => UInt8.ofNat x :: leBytes n (x / 256)

/-- The number whose bytes these are, lowest first. -/
def leNat (bs : Bytes) : Nat := bs.foldr (fun b x => b.toNat + 256 * x) 0

@[simp] theorem leBytes_length (n x : Nat) : (leBytes n x).length = n := by
  induction n generalizing x with
  | zero => rfl
  | succ n ih => simp [leBytes, ih]

theorem leNat_cons (b : UInt8) (bs : Bytes) : leNat (b :: bs) = b.toNat + 256 * leNat bs := rfl

theorem leNat_lt (bs : Bytes) : leNat bs < 256 ^ bs.length := by
  induction bs with
  | nil => exact Nat.one_pos
  | cons b bs ih =>
    have hb := b.toNat_lt
    rw [leNat_cons, List.length_cons, Nat.pow_succ]
    omega

theorem leNat_leBytes {n x : Nat} (hx : x < 256 ^ n) : leNat (leBytes n x) = x := by
  induction n generalizing x with
  | zero => exact (Nat.lt_one_iff.mp hx).symm
  | succ n ih =>
    rw [leBytes, leNat_cons, ih (Nat.div_lt_of_lt_mul (by rwa [Nat.pow_succ, Nat.mul_comm] at hx)),
      UInt8.toNat_ofNat']
    exact Nat.mod_add_div x 256

theorem leBytes_leNat (bs : Bytes) : leBytes bs.length (leNat bs) = bs := by
  induction bs with
  | nil => rfl
  | cons b bs ih =>
    have hb : b.toNat < 256 := b.toNat_lt
    have hlow : UInt8.ofNat (leNat (b :: bs)) = b :=
      UInt8.toNat_inj.mp (by rw [UInt8.toNat_ofNat', leNat_cons]; omega)
    have hhigh : leNat (b :: bs) / 256 = leNat bs := by
      rw [leNat_cons]
      omega
    rw [List.length_cons, leBytes, hlow, hhigh, ih]

/-- The `n` low bytes of `x`, highest first. -/
def beBytes (n x : Nat) : Bytes := (leBytes n x).reverse

/-- The number whose bytes these are, highest first. -/
def beNat (bs : Bytes) : Nat := leNat bs.reverse

@[simp] theorem beBytes_length (n x : Nat) : (beBytes n x).length = n := by simp [beBytes]

theorem beBytes_beNat (bs : Bytes) : beBytes bs.length (beNat bs) = bs := by
  have hbytes := leBytes_leNat bs.reverse
  rw [List.length_reverse] at hbytes
  rw [beBytes, beNat, hbytes, List.reverse_reverse]

theorem beNat_lt (bs : Bytes) : beNat bs < 256 ^ bs.length := by
  have hlt := leNat_lt bs.reverse
  rwa [List.length_reverse] at hlt

theorem beNat_beBytes {n x : Nat} (hx : x < 256 ^ n) : beNat (beBytes n x) = x := by
  rw [beNat, beBytes, List.reverse_reverse, leNat_leBytes hx]

def le16 (x : UInt16) : Bytes := leBytes 2 x.toNat

def le32 (x : UInt32) : Bytes := leBytes 4 x.toNat

def le64 (x : UInt64) : Bytes := leBytes 8 x.toNat

def ofLe16 (bs : Bytes) : UInt16 := .ofNat (leNat bs)

def ofLe32 (bs : Bytes) : UInt32 := .ofNat (leNat bs)

def ofLe64 (bs : Bytes) : UInt64 := .ofNat (leNat bs)

@[simp] theorem le16_length (x : UInt16) : (le16 x).length = 2 := leBytes_length 2 _

@[simp] theorem le32_length (x : UInt32) : (le32 x).length = 4 := leBytes_length 4 _

@[simp] theorem le64_length (x : UInt64) : (le64 x).length = 8 := leBytes_length 8 _

@[simp] theorem ofLe16_le16 (x : UInt16) : ofLe16 (le16 x) = x := by
  rw [ofLe16, le16, leNat_leBytes x.toNat_lt, UInt16.ofNat_toNat]

@[simp] theorem ofLe32_le32 (x : UInt32) : ofLe32 (le32 x) = x := by
  rw [ofLe32, le32, leNat_leBytes x.toNat_lt, UInt32.ofNat_toNat]

@[simp] theorem ofLe64_le64 (x : UInt64) : ofLe64 (le64 x) = x := by
  rw [ofLe64, le64, leNat_leBytes x.toNat_lt, UInt64.ofNat_toNat]

theorem le16_ofLe16 {bs : Bytes} (h : bs.length = 2) : le16 (ofLe16 bs) = bs := by
  have hlt := leNat_lt bs
  rw [h] at hlt
  rw [le16, ofLe16, UInt16.toNat_ofNat_of_lt' hlt, ← h, leBytes_leNat]

theorem le32_ofLe32 {bs : Bytes} (h : bs.length = 4) : le32 (ofLe32 bs) = bs := by
  have hlt := leNat_lt bs
  rw [h] at hlt
  rw [le32, ofLe32, UInt32.toNat_ofNat_of_lt' hlt, ← h, leBytes_leNat]

theorem le64_ofLe64 {bs : Bytes} (h : bs.length = 8) : le64 (ofLe64 bs) = bs := by
  have hlt := leNat_lt bs
  rw [h] at hlt
  rw [le64, ofLe64, UInt64.toNat_ofNat_of_lt' hlt, ← h, leBytes_leNat]

end Numbers

section Octets

/-- A byte string of length `n`. -/
abbrev Octets (n : Nat) := { bs : Bytes // bs.length = n }

/-- The first `n` bytes, with zeros behind a shorter string. -/
def Octets.fit (n : Nat) (bs : Bytes) : Octets n :=
  ⟨bs.take n ++ List.replicate (n - bs.length) 0, by simp; omega⟩

theorem Octets.fit_eq {n : Nat} {bs : Bytes} (h : bs.length = n) : Octets.fit n bs = ⟨bs, h⟩ := by
  subst h
  simp [fit]

theorem Octets.fit_take (n : Nat) (bs : Bytes) : Octets.fit n (bs.take n) = Octets.fit n bs := by
  apply Subtype.ext
  simp only [fit, List.take_take, Nat.min_self, List.length_take]
  congr 2
  omega

end Octets

section Layout

/-- Cuts a byte string into pieces of the given sizes. -/
def split : List Nat → Bytes → List Bytes
  | [], _ => []
  | n :: sizes, bs => bs.take n :: split sizes (bs.drop n)

theorem split_flatten (pieces : List Bytes) (rest : Bytes) :
    split (pieces.map List.length) (pieces.flatten ++ rest) = pieces := by
  induction pieces with
  | nil => rfl
  | cons piece pieces ih => simp [split, ih]

theorem flatten_split (sizes : List Nat) (bs : Bytes) :
    (split sizes bs).flatten = bs.take sizes.sum := by
  induction sizes generalizing bs with
  | nil => simp [split]
  | cons n sizes ih => rw [split, List.flatten_cons, ih, List.sum_cons, List.take_add]

theorem split_lengths {sizes : List Nat} {bs : Bytes} (h : bs.length = sizes.sum) :
    (split sizes bs).map List.length = sizes := by
  induction sizes generalizing bs with
  | nil => rfl
  | cons n sizes ih =>
    rw [List.sum_cons] at h
    rw [split, List.map_cons, List.length_take, ih (by rw [List.length_drop]; omega)]
    congr 1
    omega

end Layout

end SoftwareDynamics.ProofKit

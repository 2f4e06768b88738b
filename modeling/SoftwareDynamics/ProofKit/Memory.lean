import SoftwareDynamics.ProofKit.Bytes

/-! Memory as a map from addresses to bytes, with none where there is no object. -/

namespace SoftwareDynamics.ProofKit

abbrev Memory := Nat → Option UInt8

namespace Memory

/-- One object, which starts at the given address. -/
def object (start : Nat) (bytes : Bytes) : Memory := fun a =>
  if start ≤ a then bytes[a - start]? else none

/-- The objects of both, where those of the first one come first. -/
def union (m m' : Memory) : Memory := fun a => (m a).or (m' a)

/-- Reads `n` bytes, or fails where one of them belongs to no object. -/
def load (m : Memory) (address : Nat) : Nat → Option Bytes
  | 0 => some []
  | n + 1 => do
    let bs ← m.load address n
    let b ← m (address + n)
    return bs ++ [b]

variable {m m' : Memory} {start n i : Nat} {bytes bs : Bytes}

@[simp] theorem object_add (start i : Nat) (bytes : Bytes) :
    object start bytes (start + i) = bytes[i]? := by
  rw [object, if_pos (Nat.le_add_right _ _), Nat.add_sub_cancel_left]

theorem union_object (hi : i < bytes.length) :
    (object start bytes).union m' (start + i) = bytes[i]? := by
  rw [union, object_add, List.getElem?_eq_getElem hi]
  rfl

/-- What is read is what is there. -/
theorem load_eq_some_iff :
    m.load start n = some bs ↔ bs.length = n ∧ ∀ i < n, m (start + i) = bs[i]? := by
  induction n generalizing bs with
  | zero =>
    rw [load]
    constructor
    · intro h
      cases h
      exact ⟨rfl, fun i hi => absurd hi (Nat.not_lt_zero i)⟩
    · rintro ⟨h, -⟩
      rw [List.eq_nil_of_length_eq_zero h]
  | succ n ih =>
    simp only [load, Option.bind_eq_bind, Option.bind_eq_some_iff, ih]
    constructor
    · rintro ⟨got, ⟨rfl, hgot⟩, b, hb, h⟩
      cases h
      refine ⟨by simp, fun i hi => ?_⟩
      rcases Nat.lt_succ_iff_lt_or_eq.mp hi with hlt | rfl
      · rw [hgot i hlt, List.getElem?_append_left hlt]
      · rw [hb, List.getElem?_append_right (Nat.le_refl _), Nat.sub_self]
        rfl
    · rintro ⟨hlen, h⟩
      have hn : n < bs.length := by omega
      refine ⟨bs.take n, ⟨by rw [List.length_take]; omega, fun i hi => ?_⟩, bs[n], ?_, ?_⟩
      · rw [h i (Nat.lt_succ_of_lt hi), List.getElem?_take_of_lt hi]
      · rw [h n (Nat.lt_succ_self n), List.getElem?_eq_getElem hn]
      · rw [List.take_append_getElem hn]
        exact congrArg some (List.take_of_length_le (Nat.le_of_eq hlen))

/-- Within an object, its bytes are read. -/
theorem load_object (hn : n ≤ bytes.length) :
    ((object start bytes).union m').load start n = some (bytes.take n) := by
  refine load_eq_some_iff.mpr ⟨List.length_take_of_le hn, fun i hi => ?_⟩
  rw [union_object (Nat.lt_of_lt_of_le hi hn), List.getElem?_take_of_lt hi]

end Memory

end SoftwareDynamics.ProofKit

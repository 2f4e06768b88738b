import SoftwareDynamics.Network.Spinlock
import SoftwareDynamics.ProofKit.Checked
import SoftwareDynamics.ProofKit.HighBit

/-! The bucket that `spinlock.cc` counts a time in.  `FloorLg` looks for the highest bit of a
signed number by halves, with shifts that drag in the sign. -/

namespace SoftwareDynamics.Network

open ProofKit

section Search

variable {n w : Nat} {s : Nat × Int32}

/-- The search has come to a window of `w` bits, which are the low bits of `local_x`. -/
structure Narrowed (n w : Nat) (s : Nat × Int32) : Prop extends Window n s.1 w where
  low : s.2.toBitVec.toNat % 2 ^ w = n / 2 ^ s.1

theorem Narrowed.start (x : Int32) : Narrowed x.toUInt32.toNat 32 (0, x) where
  toWindow := .start x.toUInt32.toNat_lt
  low := by
    rw [Nat.pow_zero, Nat.div_one]
    exact Nat.mod_eq_of_lt x.toBitVec.isLt

/-- A shift by less than 32 bits is not cut down. -/
theorem toBitVec_shiftRight (x : Int32) (hw : w < 32) :
    (x >>> Int32.ofNat w).toBitVec = x.toBitVec.sshiftRight w := by
  have hall : ∀ w < 32, ((Int32.ofNat w).toBitVec.smod 32).toNat = w := by decide
  rw [Int32.toBitVec_shiftRight, BitVec.sshiftRight_eq', hall w hw]

/-- Each step halves the window. -/
theorem Narrowed.narrow (mask : Int32) (w : Nat) (h : Narrowed n (2 * w) s) (hw : 0 < w)
    (hw' : 2 * w ≤ 32) (hmask : mask.toBitVec = upperMask 32 w) :
    Narrowed n w (narrow mask w s) := by
  obtain ⟨lg, x⟩ := s
  obtain ⟨hwindow, hlow⟩ := h
  have hbit : x &&& mask ≠ 0 ↔ 2 ^ w ≤ n / 2 ^ lg := by
    rw [← hlow, ← and_upperMask x.toBitVec hw', ← hmask, ← Int32.toBitVec_and, ne_eq, ne_eq,
      ← Int32.toBitVec_inj]
    rfl
  unfold Network.narrow
  split_ifs with hne
  · refine ⟨hwindow.upper (hbit.mp hne), ?_⟩
    rw [toBitVec_shiftRight x (by omega), toNat_sshiftRight_mod _ hw', hlow, Nat.pow_add,
      Nat.div_div_eq_div_mul]
  · have hlt : n / 2 ^ lg < 2 ^ w := Nat.not_le.mp (mt hbit.mpr hne)
    refine ⟨hwindow.lower hlt, ?_⟩
    have hsub : 2 ^ w ∣ 2 ^ (2 * w) := Nat.pow_dvd_pow 2 (by omega)
    rw [← Nat.mod_mod_of_dvd _ hsub, hlow, Nat.mod_eq_of_lt hlt]

/-- `FloorLg` is the logarithm of the number that has the same bits without a sign. -/
theorem floorLg_eq_log2 (x : Int32) : floorLg x = x.toUInt32.toNat.log2 := by
  have h16 := (Narrowed.start x).narrow (-0x10000) 16 (by decide) (by decide) rfl
  have h8 := h16.narrow 0xff00 8 (by decide) (by decide) rfl
  have h4 := h8.narrow 0xf0 4 (by decide) (by decide) rfl
  have h2 := h4.narrow 0xc 2 (by decide) (by decide) rfl
  have h1 := h2.narrow 0x2 1 (by decide) (by decide) rfl
  exact h1.log2_eq.symm

end Search

section Buckets

/-- The histogram in memory. -/
structure Stored (l : LockAndHist) (b : Buf UInt32) : Prop where
  size : b.size = 32
  cell : ∀ i : Fin 32, b.cell i = some (l.hist i)

/-- `++hist[FloorLg(usec)]`, where the histogram is in memory. -/
def bumpHist (hist : Buf UInt32) (usec : Int32) : Checked (Buf UInt32) := do
  let n ← hist.load (floorLg usec)
  hist.store (floorLg usec) (n + 1)

/-- The increment stays inside the histogram. -/
theorem Stored.bumpHist {l : LockAndHist} {b : Buf UInt32} (h : Stored l b) (usec : Int32) :
    Yields (bumpHist b usec) (Stored (l.record usec)) := by
  have hlt : floorLg usec < b.size := h.size ▸ floorLg_lt usec
  refine .load_bind hlt (h.cell ⟨floorLg usec, floorLg_lt usec⟩) (.store hlt ⟨h.size, fun i => ?_⟩)
  rw [Buf.put_cell, h.cell i]
  by_cases hi : i = ⟨floorLg usec, floorLg_lt usec⟩
  · subst hi
    simp [LockAndHist.record]
  · rw [if_neg fun heq => hi (Fin.ext heq)]
    simp [LockAndHist.record, hi]

theorem toNat_toUInt32_ne_zero {x : Int32} (h : x ≠ 0) : x.toUInt32.toNat ≠ 0 := by
  intro hzero
  apply h
  apply Int32.toBitVec_inj.mp
  exact BitVec.eq_of_toNat_eq hzero

/-- Without a sign to drop, the order is that of the numbers without a sign. -/
theorem toNat_toUInt32_mono {x y : Int32} (hx : 0 ≤ x) (hxy : x ≤ y) :
    x.toUInt32.toNat ≤ y.toUInt32.toNat := by
  have nat (z : Int32) (hz : 0 ≤ z.toInt) : (z.toUInt32.toNat : Int) = z.toInt := by
    have hcond : z.toInt = if 2 * z.toUInt32.toNat < 2 ^ 32 then (z.toUInt32.toNat : Int)
        else z.toUInt32.toNat - (2 ^ 32 : Nat) := BitVec.toInt_eq_toNat_cond z.toBitVec
    have hlt := z.toUInt32.toNat_lt
    split at hcond <;> omega
  have hx' : 0 ≤ x.toInt := Int32.le_iff_toInt_le.mp hx
  have hxy' : x.toInt ≤ y.toInt := Int32.le_iff_toInt_le.mp hxy
  have hxnat := nat x hx'
  have hynat := nat y (Int.le_trans hx' hxy')
  omega

/-- `FloorLg` finds the highest bit, also of a negative number, so it keeps the order of numbers
that are not negative, and each time has a bucket. -/
theorem floorLg_highestBit (x : Int32) :
    (x = 0 → floorLg x = 0) ∧
    (x ≠ 0 → HighestBit x.toUInt32.toNat (floorLg x)) ∧
    (0 ≤ x → ∀ y, x ≤ y → floorLg x ≤ floorLg y) ∧
    ∀ l b, Stored l b → Yields (bumpHist b x) (Stored (l.record x)) := by
  refine ⟨?_, fun hx => ?_, fun hx y hxy => ?_, fun l b h => h.bumpHist x⟩
  · rintro rfl
    rfl
  · rw [floorLg_eq_log2]
    exact highestBit_log2 (toNat_toUInt32_ne_zero hx)
  · rw [floorLg_eq_log2, floorLg_eq_log2]
    exact log2_mono (toNat_toUInt32_mono hx hxy)

/-- A negative number, whose highest bit is its sign, and two times. -/
theorem floorLg_highestBit_negative :
    HighestBit (-5 : Int32).toUInt32.toNat (floorLg (-5)) ∧ floorLg 5 ≤ floorLg 1000 :=
  ⟨(floorLg_highestBit (-5)).2.1 (by decide),
    (floorLg_highestBit 5).2.2.1 (by decide) 1000 (by decide)⟩

end Buckets

end SoftwareDynamics.Network

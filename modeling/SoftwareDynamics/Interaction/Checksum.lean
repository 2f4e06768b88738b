import SoftwareDynamics.Interaction.Block
import SoftwareDynamics.Interaction.Transpose
import Mathlib.Algebra.BigOperators.Group.Finset.Basic

/-! The checksum of `interaction.cc`, and what the maps from row-major order do to it.  Each of them
moves the cells of a matrix about, which the sum of the cells does not show. -/

namespace SoftwareDynamics.Interaction

open ProofKit

section Sum

variable {α : Type} [Zero α] [Add α]

/-- The sum of the elements in the order in which they are stowed. -/
def checksum (m : Matrix α) : Checked α :=
  loop (m.width * m.height) (fun i sum => do pure (sum + (← m.data.load i))) 0

theorem checksum_eq {m : Matrix α} {cells : Nat} {V : Nat → α} (hm : Contents m.data cells V)
    (hcells : m.width * m.height = cells) : checksum m = .ok (sumTo V cells) := by
  unfold checksum
  rw [hcells]
  have hsum : Yields (loop cells (fun i sum => do pure (sum + (← m.data.load i))) 0)
      (fun sum => sum = sumTo V cells) := by
    refine Yields.loop (fun i sum => sum = sumTo V i) rfl ?_
    rintro i _ hi rfl
    exact .load_bind (hm.size ▸ hi) (hm.cell i hi) (.pure rfl)
  obtain ⟨_, hok, rfl⟩ := hsum
  exact hok

theorem Matrix.Holds.checksum_eq {m : Matrix α} {width height : Nat} {f : Nat → Nat → α}
    (h : m.Holds width height f) :
    checksum m = .ok (sumTo (fun i => f (i / width) (i % width)) (width * height)) := by
  refine Interaction.checksum_eq ⟨h.size_eq, fun i hi => h.cell hi⟩ ?_
  rw [h.width_eq, h.height_eq]

end Sum

/-- `goto` moves the first `n` indices about and `back` moves them back. -/
structure Permutes (n : Nat) (goto back : Nat → Nat) : Prop where
  goto_lt : ∀ i < n, goto i < n
  back_lt : ∀ i < n, back i < n
  back_goto : ∀ i < n, back (goto i) = i
  goto_back : ∀ i < n, goto (back i) = i

theorem sumTo_eq_sum {α : Type} [AddCommMonoid α] (V : Nat → α) (n : Nat) :
    sumTo V n = ∑ i ∈ Finset.range n, V i := by
  induction n with
  | zero => rfl
  | succ n ih => rw [sumTo, ih, Finset.sum_range_succ]

theorem Permutes.sumTo_eq {α : Type} [AddCommMonoid α] {n : Nat} {goto back : Nat → Nat}
    (h : Permutes n goto back) (V : Nat → α) : sumTo (fun i => V (goto i)) n = sumTo V n := by
  simp only [sumTo_eq_sum]
  refine Finset.sum_nbij' goto back ?_ ?_ ?_ ?_ fun i _ => rfl
  · intro i hi
    exact Finset.mem_range.mpr (h.goto_lt i (Finset.mem_range.mp hi))
  · intro i hi
    exact Finset.mem_range.mpr (h.back_lt i (Finset.mem_range.mp hi))
  · intro i hi
    exact h.back_goto i (Finset.mem_range.mp hi)
  · intro i hi
    exact h.goto_back i (Finset.mem_range.mp hi)

section Orders

variable {width height bw bh : Nat}

/-- Where the cells of a transpose come from. -/
theorem permutes_transpose (width height : Nat) :
    Permutes (width * height) (fun i => i % height * width + i / height)
      (fun i => i % width * height + i / width) where
  goto_lt i hi := by
    obtain ⟨hx, hy, -⟩ := index_split (Nat.mul_comm width height ▸ hi)
    exact index_lt hy hx
  back_lt i hi := by
    obtain ⟨hy, hx, -⟩ := index_split hi
    rw [Nat.mul_comm width height]
    exact index_lt hx hy
  back_goto i hi := by
    obtain ⟨hx, hy, hsplit⟩ := index_split (Nat.mul_comm width height ▸ hi)
    rw [index_mod hx, index_div hx, hsplit]
  goto_back i hi := by
    obtain ⟨hy, hx, hsplit⟩ := index_split hi
    rw [index_mod hy, index_div hy, hsplit]

/-- Where block-major order puts the element in row `y` and column `x`. -/
def remapIndex (width y x : Nat) : Nat :=
  64 * (y / 8 * (width / 8) + x / 8) + 8 * (y % 8) + x % 8

theorem remapIndex_eq (bw y x : Nat) :
    remapIndex (kBlockDim * bw) y x = blockIndex bw (y / 8) (x / 8) (y % 8) (x % 8) := by
  have harea : kBlockArea = 64 := rfl
  rw [remapIndex, blockIndex, harea, show kBlockDim * bw / 8 = bw from
    Nat.mul_div_cancel_left bw (by decide)]
  simp only [kBlockDim]
  omega

theorem rowAt_remapIndex {y x : Nat} (hx : x < kBlockDim * bw) :
    rowAt bw (remapIndex (kBlockDim * bw) y x) = y := by
  rw [remapIndex_eq]
  exact (rowAt_blockIndex (Nat.div_lt_of_lt_mul hx) (Nat.mod_lt y (by decide))
    (Nat.mod_lt x (by decide))).trans (Nat.div_add_mod' y 8)

theorem colAt_remapIndex {y x : Nat} (hx : x < kBlockDim * bw) :
    colAt bw (remapIndex (kBlockDim * bw) y x) = x := by
  rw [remapIndex_eq]
  exact (colAt_blockIndex (Nat.div_lt_of_lt_mul hx) (Nat.mod_lt y (by decide))
    (Nat.mod_lt x (by decide))).trans (Nat.div_add_mod' x 8)

theorem remapIndex_lt {y x : Nat} (hy : y < kBlockDim * bh) (hx : x < kBlockDim * bw) :
    remapIndex (kBlockDim * bw) y x < kBlockDim * bw * (kBlockDim * bh) := by
  rw [remapIndex_eq]
  exact blockIndex_lt (Nat.div_lt_of_lt_mul hy) (Nat.div_lt_of_lt_mul hx)
    (Nat.mod_lt y (by decide)) (Nat.mod_lt x (by decide))

/-- Each cell in block-major order is that of one element. -/
theorem remapIndex_rowAt_colAt {i : Nat} (hi : i < kBlockDim * bw * (kBlockDim * bh)) :
    rowAt bw i < kBlockDim * bh ∧ colAt bw i < kBlockDim * bw ∧
      remapIndex (kBlockDim * bw) (rowAt bw i) (colAt bw i) = i := by
  obtain ⟨y, hy, x, hx, r, hr, c, hc, rfl⟩ := eq_blockIndex hi
  rw [rowAt_blockIndex hx hr hc, colAt_blockIndex hx hr hc]
  refine ⟨inMatrix_lt hy hr, inMatrix_lt hx hc, ?_⟩
  rw [remapIndex_eq, ← kBlockDim, index_div hr, index_div hc, index_mod hr, index_mod hc]

/-- Where the cells of a block-major matrix come from. -/
theorem permutes_remap (bw bh : Nat) :
    Permutes (kBlockDim * bw * (kBlockDim * bh))
      (fun i => rowAt bw i * (kBlockDim * bw) + colAt bw i)
      (fun i => remapIndex (kBlockDim * bw) (i / (kBlockDim * bw)) (i % (kBlockDim * bw))) where
  goto_lt i hi := by
    obtain ⟨hy, hx, -⟩ := remapIndex_rowAt_colAt hi
    exact index_lt hy hx
  back_lt i hi := by
    obtain ⟨hy, hx, -⟩ := index_split hi
    exact remapIndex_lt hy hx
  back_goto i hi := by
    obtain ⟨hy, hx, hback⟩ := remapIndex_rowAt_colAt hi
    rw [index_div hx, index_mod hx, hback]
  goto_back i hi := by
    obtain ⟨hy, hx, hsplit⟩ := index_split hi
    rw [rowAt_remapIndex hx, colAt_remapIndex hx, hsplit]

end Orders

section Layouts

variable {α : Type} {a m : Matrix α} {f : Nat → Nat → α} {width height : Nat}

/-- The elements of `f` in block-major order, by one store to each cell of a fresh buffer. -/
structure Remapped (m : Matrix α) (width height : Nat) (f : Nat → Nat → α) : Prop
    extends m.Sized height width where
  lands : ∀ y x, y < height → x < width → remapIndex width y x < width * height ∧
    m.data.cell (remapIndex width y x) = some (f y x)
  hit : ∀ i < width * height,
    ∃! p : Nat × Nat, p.1 < height ∧ p.2 < width ∧ remapIndex width p.1 p.2 = i
  once : m.StoredOnce

theorem Remapped.of_fillsOnce {bw bh : Nat} {data : Buf α}
    (h : FillsOnce (fun i => f (rowAt bw i) (colAt bw i))
      (· < kBlockDim * bw * (kBlockDim * bh)) (.alloc (kBlockDim * bw * (kBlockDim * bh))) data) :
    Remapped ⟨data, kBlockDim * bh, kBlockDim * bw⟩ (kBlockDim * bw) (kBlockDim * bh) f where
  width_eq := rfl
  height_eq := rfl
  size_eq := h.size.trans (Nat.mul_comm _ _)
  lands y x hy hx := by
    have hlt := remapIndex_lt hy hx
    refine ⟨hlt, ?_⟩
    rw [h.set _ hlt, rowAt_remapIndex hx, colAt_remapIndex hx]
  hit i hi := by
    obtain ⟨hy, hx, hback⟩ := remapIndex_rowAt_colAt hi
    refine ⟨(rowAt bw i, colAt bw i), ⟨hy, hx, hback⟩, ?_⟩
    rintro ⟨y, x⟩ ⟨-, hx', rfl⟩
    rw [rowAt_remapIndex hx', colAt_remapIndex hx']
  once := .of_fillsOnce h fun _ hi => hi

end Layouts

section Checksums

variable {α : Type} [AddCommMonoid α] {a : Matrix α} {f : Nat → Nat → α} {width height : Nat}

theorem sumTo_congr {V V' : Nat → α} {n : Nat} (h : ∀ i < n, V i = V' i) :
    sumTo V n = sumTo V' n := by
  simp only [sumTo_eq_sum]
  exact Finset.sum_congr rfl fun i hi => h i (Finset.mem_range.mp hi)

/-- A transpose has the checksum of the matrix. -/
theorem Transposes.checksum_eq {t : Matrix α} (ht : Transposes t width height f)
    (ha : a.Holds width height f) : checksum t = checksum a := by
  rw [ht.holds.checksum_eq, ha.checksum_eq, ← (permutes_transpose width height).sumTo_eq,
    Nat.mul_comm height width]
  congr 1
  apply sumTo_congr
  intro i hi
  obtain ⟨hx, -, -⟩ := index_split (Nat.mul_comm width height ▸ hi)
  rw [index_div hx, index_mod hx]

/-- Block-major order keeps the checksum. -/
theorem checksum_blockMajor {bw bh : Nat} {data : Buf α}
    (ha : a.Holds (kBlockDim * bw) (kBlockDim * bh) f)
    (hdata : Contents data (kBlockDim * bw * (kBlockDim * bh))
      (fun i => f (rowAt bw i) (colAt bw i))) :
    checksum ⟨data, kBlockDim * bh, kBlockDim * bw⟩ = checksum a := by
  rw [checksum_eq hdata (Nat.mul_comm _ _), ha.checksum_eq,
    ← (permutes_remap bw bh).sumTo_eq fun i => f (i / (kBlockDim * bw)) (i % (kBlockDim * bw))]
  congr 1
  apply sumTo_congr
  intro i hi
  obtain ⟨-, hx, -⟩ := remapIndex_rowAt_colAt hi
  rw [index_div hx, index_mod hx]

/-- Every map from row-major order keeps the checksum, and block-major order has a cell of its own
for each element. -/
theorem checksum_kept (ha : a.Holds width height f) :
    (8 ∣ width → 8 ∣ height → ∃ m t s, blockRemap a = .ok m ∧ Remapped m width height f ∧
      transposed8x8Flipped a = .ok t ∧ checksum a = .ok s ∧ checksum m = .ok s ∧
      checksum t = .ok s) ∧
    ∃ t s, transposed a = .ok t ∧ checksum a = .ok s ∧ checksum t = .ok s := by
  constructor
  · intro hw hh
    obtain ⟨t, ht, hswap⟩ := transposed8x8Flipped_transposes ha hw hh
    obtain ⟨bw, rfl⟩ := hw
    obtain ⟨bh, rfl⟩ := hh
    obtain ⟨data, hm, hdata⟩ := blockRemap_once ha
    have hsum := checksum_blockMajor ha ⟨hdata.size, hdata.set⟩
    exact ⟨_, t, _, hm, .of_fillsOnce hdata, ht, ha.checksum_eq, hsum.trans ha.checksum_eq,
      (hswap.checksum_eq ha).trans ha.checksum_eq⟩
  · obtain ⟨t, ht, hswap⟩ := transposed_yields ha
    exact ⟨t, _, ht, ha.checksum_eq, (hswap.checksum_eq ha).trans ha.checksum_eq⟩

theorem checksum_kept_wide :
    (8 ∣ 16 → 8 ∣ 8 → ∃ m t s, blockRemap (.ofFn 16 8 fun y x => (y - x : Int)) = .ok m ∧
      Remapped m 16 8 (fun y x => (y - x : Int)) ∧
      transposed8x8Flipped (.ofFn 16 8 fun y x => (y - x : Int)) = .ok t ∧
      checksum (.ofFn 16 8 fun y x => (y - x : Int)) = .ok s ∧ checksum m = .ok s ∧
      checksum t = .ok s) ∧
    ∃ t s, transposed (.ofFn 16 8 fun y x => (y - x : Int)) = .ok t ∧
      checksum (.ofFn 16 8 fun y x => (y - x : Int)) = .ok s ∧ checksum t = .ok s :=
  checksum_kept (Matrix.ofFn_holds 16 8 _)

end Checksums

end SoftwareDynamics.Interaction

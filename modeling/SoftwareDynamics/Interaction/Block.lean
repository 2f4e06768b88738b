import SoftwareDynamics.Interaction.Simple
import Mathlib.Algebra.Ring.Int.Defs

/-! The blocked product of `interaction.cc`.  The operands are remapped to block-major order, the
product is accumulated block by block there, and the result is mapped back. -/

namespace SoftwareDynamics.Interaction

open ProofKit

def kBlockDim : Nat := 8

def kBlockArea : Nat := kBlockDim * kBlockDim

section Remap

variable {α : Type}

/-- Map from row-major to block-major. -/
def blockRemap (a : Matrix α) : Checked (Matrix α) := do
  assert (a.height % kBlockDim = 0)
  assert (a.width % kBlockDim = 0)
  let ret : Matrix α := ⟨.alloc (a.width * a.height), a.height, a.width⟩
  let blockW := a.width / kBlockDim
  let blockH := a.height / kBlockDim
  let data ← loop blockH (fun aBlockY data =>
    loop blockW (fun aBlockX data =>
      let retBlock := aBlockY * blockW + aBlockX
      let blockData := retBlock * kBlockArea
      loop kBlockDim (fun row data =>
        let aY := aBlockY * kBlockDim + row
        let aRow := aY * a.width
        loop kBlockDim (fun col data => do
          let aX := aBlockX * kBlockDim + col
          let val ← a.data.load (aRow + aX)
          data.store (blockData + (row * kBlockDim + col)) val) data) data) data) ret.data
  pure { ret with data }

/-- Map from block-major to row-major. -/
def blockUnmap (a : Matrix α) : Checked (Matrix α) := do
  assert (a.height % kBlockDim = 0)
  assert (a.width % kBlockDim = 0)
  let ret : Matrix α := ⟨.alloc (a.width * a.height), a.height, a.width⟩
  let blockW := a.width / kBlockDim
  let blockH := a.height / kBlockDim
  let data ← loop blockH (fun blockY data =>
    loop blockW (fun blockX data =>
      let aBlock := kBlockArea * (blockY * blockW + blockX)
      loop kBlockDim (fun row data =>
        loop kBlockDim (fun col data => do
          let retX := blockX * kBlockDim + col
          let retY := blockY * kBlockDim + row
          let val ← a.data.load (aBlock + (row * kBlockDim + col))
          data.store (retY * ret.width + retX) val) data) data) data) ret.data
  pure { ret with data }

end Remap

section Layout

variable {bw bh blockY blockX row col : Nat}

/-- The cell of element `(row, col)` of block `(blockY, blockX)`, of `bw` blocks a row. -/
def blockIndex (bw blockY blockX row col : Nat) : Nat :=
  (blockY * bw + blockX) * kBlockArea + (row * kBlockDim + col)

/-- The row of the element in cell `i` of a block-major buffer. -/
def rowAt (bw i : Nat) : Nat := i / kBlockArea / bw * kBlockDim + i % kBlockArea / kBlockDim

/-- The column of the element in cell `i` of a block-major buffer. -/
def colAt (bw i : Nat) : Nat := i / kBlockArea % bw * kBlockDim + i % kBlockDim

theorem inBlock_lt (hrow : row < kBlockDim) (hcol : col < kBlockDim) :
    row * kBlockDim + col < kBlockArea := index_lt hrow hcol

theorem blockIndex_div (hrow : row < kBlockDim) (hcol : col < kBlockDim) :
    blockIndex bw blockY blockX row col / kBlockArea = blockY * bw + blockX :=
  index_div (inBlock_lt hrow hcol)

theorem blockIndex_mod (hrow : row < kBlockDim) (hcol : col < kBlockDim) :
    blockIndex bw blockY blockX row col % kBlockArea = row * kBlockDim + col :=
  index_mod (inBlock_lt hrow hcol)

theorem rowAt_blockIndex (hx : blockX < bw) (hrow : row < kBlockDim) (hcol : col < kBlockDim) :
    rowAt bw (blockIndex bw blockY blockX row col) = blockY * kBlockDim + row := by
  rw [rowAt, blockIndex_div hrow hcol, blockIndex_mod hrow hcol, index_div hx, index_div hcol]

theorem colAt_blockIndex (hx : blockX < bw) (hrow : row < kBlockDim) (hcol : col < kBlockDim) :
    colAt bw (blockIndex bw blockY blockX row col) = blockX * kBlockDim + col := by
  have hmod : blockIndex bw blockY blockX row col % kBlockDim = col := by
    rw [← Nat.mod_mul_left_mod _ kBlockDim kBlockDim, ← kBlockArea, blockIndex_mod hrow hcol,
      index_mod hcol]
  rw [colAt, blockIndex_div hrow hcol, hmod, index_mod hx]

theorem blockArea_mul (bw bh : Nat) :
    kBlockArea * (bw * bh) = kBlockDim * bw * (kBlockDim * bh) := by
  rw [kBlockArea, Nat.mul_mul_mul_comm]

theorem blockIndex_lt (hy : blockY < bh) (hx : blockX < bw) (hrow : row < kBlockDim)
    (hcol : col < kBlockDim) :
    blockIndex bw blockY blockX row col < kBlockDim * bw * (kBlockDim * bh) := by
  have h := index_lt (index_lt hy hx) (inBlock_lt hrow hcol)
  exact blockArea_mul bw bh ▸ h

theorem eq_blockIndex {i : Nat} (hi : i < kBlockDim * bw * (kBlockDim * bh)) :
    ∃ y < bh, ∃ x < bw, ∃ r < kBlockDim, ∃ c < kBlockDim, i = blockIndex bw y x r c := by
  rw [← blockArea_mul] at hi
  obtain ⟨hblock, hin, hsplit⟩ := index_split hi
  obtain ⟨hy, hx, hxy⟩ := index_split hblock
  obtain ⟨hr, hc, hrc⟩ := index_split (show i % kBlockArea < kBlockDim * kBlockDim from hin)
  refine ⟨_, hy, _, hx, _, hr, _, hc, ?_⟩
  rw [blockIndex, hxy, hrc, hsplit]

/-- A buffer of `bw` by `bh` blocks that holds `f` in block-major order. -/
structure Blocks {α : Type} (b : Buf α) (bw bh : Nat) (f : Nat → Nat → α) : Prop where
  size : b.size = kBlockDim * bw * (kBlockDim * bh)
  element : ∀ i < b.size, b.cell i = some (f (rowAt bw i) (colAt bw i))

theorem Blocks.load {α : Type} {b : Buf α} {f : Nat → Nat → α} (h : Blocks b bw bh f)
    (hy : blockY < bh) (hx : blockX < bw) (hrow : row < kBlockDim) (hcol : col < kBlockDim) :
    b.load (blockIndex bw blockY blockX row col) =
      .ok (f (blockY * kBlockDim + row) (blockX * kBlockDim + col)) := by
  have hlt := blockIndex_lt hy hx hrow hcol
  rw [← h.size] at hlt
  rw [Buf.load_eq hlt (h.element _ hlt), rowAt_blockIndex hx hrow hcol,
    colAt_blockIndex hx hrow hcol]

/-- A buffer of `cells` cells that holds `V i` in each cell `i`. -/
structure Contents {α : Type} (b : Buf α) (cells : Nat) (V : Nat → α) : Prop where
  size : b.size = cells
  cell : ∀ i < cells, b.cell i = some (V i)

theorem Contents.congr {α : Type} {b : Buf α} {cells : Nat} {V V' : Nat → α}
    (h : Contents b cells V)
    (hV : ∀ i < cells, V i = V' i) : Contents b cells V' :=
  ⟨h.size, fun i hi => by rw [h.cell i hi, hV i hi]⟩

end Layout

section Remap

variable {α : Type} {a : Matrix α} {f : Nat → Nat → α} {bw bh : Nat}

theorem inMatrix_lt {y row : Nat} (hy : y < bw) (hrow : row < kBlockDim) :
    y * kBlockDim + row < kBlockDim * bw := index_lt hy hrow

/-- Which block a cell belongs to, and where it lies in it, can be told from the cell. -/
theorem blockIndex_told {blockY blockX row col : Nat} (hx : blockX < bw) (hrow : row < kBlockDim)
    (hcol : col < kBlockDim) :
    rowAt bw (blockIndex bw blockY blockX row col) / kBlockDim = blockY ∧
      colAt bw (blockIndex bw blockY blockX row col) / kBlockDim = blockX ∧
      rowAt bw (blockIndex bw blockY blockX row col) % kBlockDim = row ∧
      colAt bw (blockIndex bw blockY blockX row col) % kBlockDim = col := by
  rw [rowAt_blockIndex hx hrow hcol, colAt_blockIndex hx hrow hcol]
  exact ⟨index_div hrow, index_div hcol, index_mod hrow, index_mod hcol⟩

/-- A remapped matrix holds the blocks in order, each cell after one store to it. -/
theorem blockRemap_once (ha : a.Holds (kBlockDim * bw) (kBlockDim * bh) f) :
    ∃ data, blockRemap a = .ok ⟨data, kBlockDim * bh, kBlockDim * bw⟩ ∧
      FillsOnce (fun i => f (rowAt bw i) (colAt bw i))
        (· < kBlockDim * bw * (kBlockDim * bh)) (.alloc (kBlockDim * bw * (kBlockDim * bh)))
        data := by
  have hmap : Yields (blockRemap a) (fun m => m.width = kBlockDim * bh ∧ m.height = kBlockDim * bw ∧
      FillsOnce (fun i => f (rowAt bw i) (colAt bw i))
        (fun i => ∃ y < bh, ∃ x < bw, ∃ row < kBlockDim, ∃ col < kBlockDim,
          i = blockIndex bw y x row col) (.alloc (kBlockDim * bw * (kBlockDim * bh))) m.data) := by
    unfold blockRemap
    rw [ha.width_eq, ha.height_eq]
    refine .assert_bind (Nat.mul_mod_right _ _) (.assert_bind (Nat.mul_mod_right _ _) ?_)
    simp only [Nat.mul_div_cancel_left _ (show 0 < kBlockDim by decide)]
    refine .bind (Yields.fillOnce_loop (T := fun i => f (rowAt bw i) (colAt bw i))
      (fun y i => ∃ x < bw, ∃ row < kBlockDim, ∃ col < kBlockDim, i = blockIndex bw y x row col)
      (rowAt bw · / kBlockDim) ?_ fun y d hy hd => ?_) fun d hd => .pure ⟨rfl, rfl, hd⟩
    · rintro y - _ ⟨x, hx, row, hrow, col, hcol, rfl⟩
      exact (blockIndex_told hx hrow hcol).1
    refine Yields.fillOnce_loop (fun x i => ∃ row < kBlockDim, ∃ col < kBlockDim,
      i = blockIndex bw y x row col) (colAt bw · / kBlockDim) ?_ fun x d1 hx hd1 => ?_
    · rintro x hx _ ⟨row, hrow, col, hcol, rfl⟩
      exact (blockIndex_told hx hrow hcol).2.1
    refine Yields.fillOnce_loop (fun row i => ∃ col < kBlockDim, i = blockIndex bw y x row col)
      (rowAt bw · % kBlockDim) ?_ fun row d2 hrow hd2 => ?_
    · rintro row hrow _ ⟨col, hcol, rfl⟩
      exact (blockIndex_told hx hrow hcol).2.2.1
    refine Yields.fillOnce_loop (fun col i => i = blockIndex bw y x row col)
      (colAt bw · % kBlockDim) ?_ fun col d3 hcol hd3 => ?_
    · rintro col hcol _ rfl
      exact (blockIndex_told hx hrow hcol).2.2.2
    have hay := inMatrix_lt hy hrow
    have hax := inMatrix_lt hx hcol
    refine .load_bind (ha.element_lt hay hax) (ha.element _ _ hay hax) (.store ?_ (.put ?_))
    · rw [hd3, hd2, hd1, hd]
      exact blockIndex_lt hy hx hrow hcol
    · rw [rowAt_blockIndex hx hrow hcol, colAt_blockIndex hx hrow hcol]
  obtain ⟨⟨data, _, _⟩, hok, rfl, rfl, hdata⟩ := hmap
  refine ⟨data, hok, hdata.congr fun i => ⟨?_, eq_blockIndex⟩⟩
  rintro ⟨y, hy, x, hx, row, hrow, col, hcol, rfl⟩
  exact blockIndex_lt hy hx hrow hcol

theorem Blocks.of_fillsOnce {data : Buf α}
    (h : FillsOnce (fun i => f (rowAt bw i) (colAt bw i))
      (· < kBlockDim * bw * (kBlockDim * bh)) (.alloc (kBlockDim * bw * (kBlockDim * bh))) data) :
    Blocks data bw bh f := by
  have hsize : data.size = kBlockDim * bw * (kBlockDim * bh) := h.size
  exact ⟨hsize, fun i hi => h.set i (hsize ▸ hi)⟩

theorem blockRemap_yields (ha : a.Holds (kBlockDim * bw) (kBlockDim * bh) f) :
    Yields (blockRemap a) (fun m => Blocks m.data bw bh f) := by
  obtain ⟨data, hok, hdata⟩ := blockRemap_once ha
  exact ⟨_, hok, .of_fillsOnce hdata⟩

theorem blockUnmap_yields (hw : a.width = kBlockDim * bw) (hh : a.height = kBlockDim * bw)
    (ha : Blocks a.data bw bw f) :
    Yields (blockUnmap a) (fun m => m.Holds (kBlockDim * bw) (kBlockDim * bw) f) := by
  unfold blockUnmap
  rw [hw, hh]
  refine .assert_bind (Nat.mul_mod_right _ _) (.assert_bind (Nat.mul_mod_right _ _) ?_)
  simp only [Nat.mul_div_cancel_left _ (show 0 < kBlockDim by decide)]
  refine .bind (Yields.fill_loop
    (T := fun i => f (i / (kBlockDim * bw)) (i % (kBlockDim * bw)))
    (fun y i => ∃ x < bw, ∃ row < kBlockDim, ∃ col < kBlockDim,
      i = (y * kBlockDim + row) * (kBlockDim * bw) + (x * kBlockDim + col))
    fun y d hy hd => ?_) ?_
  · refine Yields.fill_loop (fun x i => ∃ row < kBlockDim, ∃ col < kBlockDim,
      i = (y * kBlockDim + row) * (kBlockDim * bw) + (x * kBlockDim + col))
      fun x d1 hx hd1 => ?_
    refine Yields.fill_loop (fun row i => ∃ col < kBlockDim,
      i = (y * kBlockDim + row) * (kBlockDim * bw) + (x * kBlockDim + col))
      fun row d2 hrow hd2 => ?_
    refine Yields.fill_loop (fun col i =>
      i = (y * kBlockDim + row) * (kBlockDim * bw) + (x * kBlockDim + col))
      fun col d3 hcol hd3 => ?_
    have hay := inMatrix_lt hy hrow
    have hax := inMatrix_lt hx hcol
    rw [Nat.mul_comm kBlockArea, ← blockIndex, ha.load hy hx hrow hcol, Checked.ok_bind]
    refine .store ?_ (.put ?_)
    · rw [hd3, hd2, hd1, hd]
      exact index_lt hay hax
    · rw [index_div hax, index_mod hax]
  · intro d hd
    refine .pure (Matrix.Holds.of_fills rfl hd fun y x hy hx => ?_)
    obtain ⟨hby, hr, hyr⟩ := index_split hy
    obtain ⟨hbx, hc, hxc⟩ := index_split hx
    exact ⟨_, hby, _, hbx, _, hr, _, hc, by rw [hyr, hxc]⟩

end Remap

section Program

variable {α : Type} [Zero α] [Add α] [Mul α]

/-- `aa_block[row][i] * bb_block[i][col]`, of the blocks that start at the given cells. -/
def blockTerm (aa bb : Buf α) (aaBlock bbBlock row col i : Nat) : Checked α := do
  let x ← aa.load (aaBlock + (row * kBlockDim + i))
  let y ← bb.load (bbBlock + (i * kBlockDim + col))
  pure (x * y)

/-- Element `(row, col)` of the product of two blocks, unrolled as in the source. -/
def blockSum (aa bb : Buf α) (aaBlock bbBlock row col : Nat) : Checked α := do
  let term := blockTerm aa bb aaBlock bbBlock row col
  let sum := 0
  let sum := sum + (← term 0)
  let sum := sum + (← term 1)
  let sum := sum + (← term 2)
  let sum := sum + (← term 3)
  let sum := sum + (← term 4)
  let sum := sum + (← term 5)
  let sum := sum + (← term 6)
  let sum := sum + (← term 7)
  pure sum

/-- The product of `a` and `b`, accumulated in block-major order in `c`'s own buffer. -/
def blockRemapMatMul (a b c : Matrix α) : Checked (Matrix α) := do
  assert (a.width = b.height)
  assert (a.height = c.height)
  assert (b.width = c.width)
  let aa ← blockRemap a
  let bb ← blockRemap b
  let cc : Matrix α := ⟨c.data, c.height, c.width⟩
  let zeroed ← memset cc.data (cc.height * cc.width) 0
  let cBlockW := cc.width / kBlockDim
  let cBlockH := cc.height / kBlockDim
  let data ← loop cBlockH (fun blockRow data =>
    loop cBlockW (fun blockCol data =>
      let ccBlock := kBlockArea * (blockRow * cBlockW + blockCol)
      loop (a.width / kBlockDim) (fun k data =>
        let aaBlock := kBlockArea * (blockRow * cBlockW + k)
        let bbBlock := kBlockArea * (k * cBlockW + blockCol)
        loop kBlockDim (fun row data =>
          loop kBlockDim (fun col data => do
            let sum ← blockSum aa.data bb.data aaBlock bbBlock row col
            let val ← data.load (ccBlock + (row * kBlockDim + col))
            data.store (ccBlock + (row * kBlockDim + col)) (val + sum)) data) data) data) data)
    zeroed
  let ccc ← blockUnmap { cc with data }
  pure { c with data := ccc.data }

end Program

section Product

variable {α : Type} [CommRing α]
variable {a b c : Matrix α} {f g : Nat → Nat → α} {bw : Nat}

/-- The value of cell `i` once all the blocks before block `m` are complete, the first `k` terms of
block `m` are in place, and its first `j` cells have their next term. -/
def progress (f g : Nat → Nat → α) (bw m k j i : Nat) : α :=
  let element := fun terms => dot f g (kBlockDim * terms) (rowAt bw i) (colAt bw i)
  if i < m * kBlockArea then element bw
  else if i < m * kBlockArea + j then element (k + 1)
  else if i < (m + 1) * kBlockArea then element k
  else 0

theorem sumTo_add (t : Nat → α) (m n : Nat) :
    sumTo t (m + n) = sumTo t m + sumTo (fun i => t (m + i)) n := by
  induction n with
  | zero => exact (add_zero _).symm
  | succ n ih => rw [← Nat.add_assoc, sumTo, ih, add_assoc]; rfl

theorem dot_add_block (f g : Nat → Nat → α) (k row col : Nat) :
    dot f g (kBlockDim * (k + 1)) row col = dot f g (kBlockDim * k) row col +
      sumTo (fun i => f row (k * kBlockDim + i) * g (k * kBlockDim + i) col) kBlockDim := by
  rw [Nat.mul_succ, Nat.mul_comm kBlockDim k]
  exact sumTo_add _ _ _

theorem blockSum_eq {aa bb : Buf α} (haa : Blocks aa bw bw f) (hbb : Blocks bb bw bw g)
    {y x k row col : Nat} (hy : y < bw) (hx : x < bw) (hk : k < bw) (hrow : row < kBlockDim)
    (hcol : col < kBlockDim) :
    blockSum aa bb (kBlockArea * (y * bw + k)) (kBlockArea * (k * bw + x)) row col =
      .ok (sumTo (fun i => f (y * kBlockDim + row) (k * kBlockDim + i) *
        g (k * kBlockDim + i) (x * kBlockDim + col)) kBlockDim) := by
  have hterm : ∀ i < kBlockDim,
      blockTerm aa bb (kBlockArea * (y * bw + k)) (kBlockArea * (k * bw + x)) row col i =
        .ok (f (y * kBlockDim + row) (k * kBlockDim + i) *
          g (k * kBlockDim + i) (x * kBlockDim + col)) := by
    intro i hi
    rw [blockTerm, Nat.mul_comm kBlockArea, Nat.mul_comm kBlockArea, ← blockIndex, ← blockIndex,
      haa.load hy hk hrow hi, hbb.load hk hx hi hcol]
    rfl
  simp only [blockSum, hterm _ (show 0 < kBlockDim by decide),
    hterm _ (show 1 < kBlockDim by decide), hterm _ (show 2 < kBlockDim by decide),
    hterm _ (show 3 < kBlockDim by decide), hterm _ (show 4 < kBlockDim by decide),
    hterm _ (show 5 < kBlockDim by decide), hterm _ (show 6 < kBlockDim by decide),
    hterm _ (show 7 < kBlockDim by decide), Checked.ok_bind]
  rfl

theorem progress_start (f g : Nat → Nat → α) (bw i : Nat) : progress f g bw 0 0 0 i = 0 := by
  simp only [progress, Nat.zero_mul, Nat.add_zero, Nat.not_lt_zero, if_false]
  split_ifs <;> rfl

theorem progress_term (f g : Nat → Nat → α) (bw m k i : Nat) :
    progress f g bw m k kBlockArea i = progress f g bw m (k + 1) 0 i := by
  simp only [progress, Nat.succ_mul, Nat.add_zero]
  split_ifs <;> rfl

theorem progress_block (f g : Nat → Nat → α) (bw m i : Nat) :
    progress f g bw m bw 0 i = progress f g bw (m + 1) 0 0 i := by
  simp only [progress, Nat.succ_mul, Nat.add_zero]
  split_ifs <;> first | rfl | omega

theorem progress_end {i : Nat} (hi : i < kBlockDim * bw * (kBlockDim * bw)) :
    progress f g bw (bw * bw) 0 0 i = dot f g (kBlockDim * bw) (rowAt bw i) (colAt bw i) := by
  rw [Nat.mul_mul_mul_comm, ← kBlockArea, Nat.mul_comm] at hi
  exact if_pos hi

theorem progress_at {m k j : Nat} (hj : j < kBlockArea) :
    progress f g bw m k j (m * kBlockArea + j) =
      dot f g (kBlockDim * k) (rowAt bw (m * kBlockArea + j)) (colAt bw (m * kBlockArea + j)) := by
  simp only [progress, Nat.succ_mul]
  rw [if_neg (by omega), if_neg (by omega), if_pos (by omega)]

theorem Contents.put_progress {data : Buf α} {cells m k j : Nat}
    (h : Contents data cells (progress f g bw m k j)) :
    Contents (data.put (m * kBlockArea + j) (dot f g (kBlockDim * (k + 1))
        (rowAt bw (m * kBlockArea + j)) (colAt bw (m * kBlockArea + j))))
      cells (progress f g bw m k (j + 1)) where
  size := h.size
  cell i hi := by
    rw [Buf.put_cell, h.cell i hi]
    simp only [progress]
    split_ifs with heq <;> first | rfl | omega | (subst heq; rfl)

/-- One round of the innermost loop adds a term to one cell. -/
theorem yields_cell {aa bb data : Buf α} (haa : Blocks aa bw bw f) (hbb : Blocks bb bw bw g)
    {y x k row col : Nat} (hy : y < bw) (hx : x < bw) (hk : k < bw) (hrow : row < kBlockDim)
    (hcol : col < kBlockDim)
    (hdata : Contents data (kBlockDim * bw * (kBlockDim * bw))
      (progress f g bw (y * bw + x) k (row * kBlockDim + col))) :
    Yields (do
      let sum ← blockSum aa bb (kBlockArea * (y * bw + k)) (kBlockArea * (k * bw + x)) row col
      let val ← data.load (kBlockArea * (y * bw + x) + (row * kBlockDim + col))
      data.store (kBlockArea * (y * bw + x) + (row * kBlockDim + col)) (val + sum))
      (fun data => Contents data (kBlockDim * bw * (kBlockDim * bw))
        (progress f g bw (y * bw + x) k (row * kBlockDim + (col + 1)))) := by
  have hin := inBlock_lt hrow hcol
  have hlt := blockIndex_lt hy hx hrow hcol
  rw [blockSum_eq haa hbb hy hx hk hrow hcol, Checked.ok_bind, Nat.mul_comm kBlockArea,
    ← blockIndex]
  refine .load_bind (hdata.size ▸ hlt) (hdata.cell _ hlt) (.store (hdata.size ▸ hlt) ?_)
  have hput := hdata.put_progress
  rw [← blockIndex, dot_add_block] at hput
  rw [blockIndex, progress_at hin, ← blockIndex]
  rw [rowAt_blockIndex hx hrow hcol, colAt_blockIndex hx hrow hcol] at hput ⊢
  exact hput

/-- The blocked product of full square matrices holds their product. -/
theorem blockRemapMatMul_yields (ha : a.Holds (kBlockDim * bw) (kBlockDim * bw) f)
    (hb : b.Holds (kBlockDim * bw) (kBlockDim * bw) g)
    (hc : c.Sized (kBlockDim * bw) (kBlockDim * bw)) :
    Yields (blockRemapMatMul a b c)
      (fun m => m.Holds (kBlockDim * bw) (kBlockDim * bw) (dot f g (kBlockDim * bw))) := by
  unfold blockRemapMatMul
  rw [ha.width_eq, ha.height_eq, hb.width_eq, hb.height_eq, hc.width_eq, hc.height_eq]
  refine .assert_bind rfl (.assert_bind rfl (.assert_bind rfl ?_))
  refine .bind (blockRemap_yields ha) fun aa ⟨hsize, helement⟩ => ?_
  have haa : Blocks aa.data bw bw f := ⟨hsize, helement⟩
  refine .bind (blockRemap_yields hb) fun bb ⟨hsize, helement⟩ => ?_
  have hbb : Blocks bb.data bw bw g := ⟨hsize, helement⟩
  refine .bind (memset_yields 0 (Nat.le_of_eq hc.size_eq.symm)) fun zeroed hzeroed => ?_
  simp only [Nat.mul_div_cancel_left _ (show 0 < kBlockDim by decide)]
  refine .bind (Yields.loop (fun y data => Contents data (kBlockDim * bw * (kBlockDim * bw))
    (progress f g bw (y * bw) 0 0)) ?_ fun y d hy hd => ?_) fun data hdata => ?_
  · refine ⟨hzeroed.size.trans hc.size_eq, fun i hi => ?_⟩
    rw [hzeroed.set i hi, Nat.zero_mul, progress_start]
  · rw [Nat.succ_mul]
    refine Yields.loop (fun x data => Contents data (kBlockDim * bw * (kBlockDim * bw))
      (progress f g bw (y * bw + x) 0 0)) hd fun x d1 hx hd1 => ?_
    refine (Yields.loop (fun k data => Contents data (kBlockDim * bw * (kBlockDim * bw))
      (progress f g bw (y * bw + x) k 0)) hd1 fun k d2 hk hd2 => ?_).mono fun d2 hd2 =>
        hd2.congr fun i _ => progress_block f g bw _ i
    refine (Yields.loop (fun row data => Contents data (kBlockDim * bw * (kBlockDim * bw))
      (progress f g bw (y * bw + x) k (row * kBlockDim))) (by simpa using hd2)
      fun row d3 hrow hd3 => ?_).mono fun d3 hd3 =>
        hd3.congr fun i _ => progress_term f g bw _ k i
    rw [Nat.succ_mul]
    refine Yields.loop (fun col data => Contents data (kBlockDim * bw * (kBlockDim * bw))
      (progress f g bw (y * bw + x) k (row * kBlockDim + col))) hd3 fun col d4 hcol hd4 => ?_
    exact yields_cell haa hbb hy hx hk hrow hcol hd4
  · refine .bind (blockUnmap_yields (f := dot f g (kBlockDim * bw)) rfl rfl
      ⟨hdata.size, fun i hi => ?_⟩) fun ccc hccc => ?_
    · have hlt := hdata.size ▸ hi
      rw [hdata.cell i hlt, progress_end hlt]
    · exact .pure ⟨⟨rfl, rfl, hccc.size_eq⟩, hccc.element⟩

/-- The blocked product is the simple product. -/
theorem blockRemapMatMul_eq_simpleMatMul {n : Nat} (hn : 8 ∣ n) (ha : a.Full n n)
    (hb : b.Full n n) (hc : c.Sized n n) :
    Matrix.SameContents n n (blockRemapMatMul a b c) (simpleMatMul a b c) := by
  obtain ⟨bw, rfl⟩ := hn
  have : Inhabited α := ⟨0⟩
  obtain ⟨f, hf⟩ := ha.exists_holds
  obtain ⟨g, hg⟩ := hb.exists_holds
  exact ⟨_, blockRemapMatMul_yields hf hg hc, simpleMatMul_yields hf hg hc⟩

theorem blockRemapMatMul_sixteen :
    Matrix.SameContents 16 16
      (blockRemapMatMul (.ofFn 16 16 fun y x => (y * 3 + x : Int))
        (.ofFn 16 16 fun y x => (y - x : Int)) ⟨.alloc 256, 16, 16⟩)
      (simpleMatMul (.ofFn 16 16 fun y x => (y * 3 + x : Int))
        (.ofFn 16 16 fun y x => (y - x : Int)) ⟨.alloc 256, 16, 16⟩) :=
  blockRemapMatMul_eq_simpleMatMul (by decide) (Matrix.ofFn_holds 16 16 _).full
    (Matrix.ofFn_holds 16 16 _).full ⟨rfl, rfl, rfl⟩

end Product

end SoftwareDynamics.Interaction

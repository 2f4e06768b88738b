import SoftwareDynamics.Interaction.Block

/-! Where the blocked product of `interaction.cc` stays inside its buffers.  Its asserts let
rectangular matrices through, but it counts the blocks in a row of each matrix as those of `c`. -/

namespace SoftwareDynamics.Interaction

open ProofKit

section Initialized

variable {α : Type} {b : Buf α} {n : Nat}

/-- A buffer of `n` cells all of which have been stored to. -/
structure Initialized (b : Buf α) (n : Nat) : Prop where
  size : b.size = n
  cell : ∀ i < n, (b.cell i).isSome

theorem Initialized.load (h : Initialized b n) {i : Nat} (hi : i < n) : ∃ v, b.load i = .ok v := by
  obtain ⟨v, hv⟩ := Option.isSome_iff_exists.mp (h.cell i hi)
  exact ⟨v, Buf.load_eq (h.size ▸ hi) hv⟩

theorem Initialized.put (h : Initialized b n) (i : Nat) (v : α) : Initialized (b.put i v) n where
  size := h.size
  cell j hj := by
    rw [Buf.put_cell]
    split_ifs
    · rfl
    · exact h.cell j hj

/-- The buffer of a matrix of blocks, all of which have been stored to, holds some function. -/
theorem Initialized.blockMajor [Inhabited α] {bw : Nat}
    (h : Initialized b (kBlockDim * bw * (kBlockDim * bw))) : ∃ f, Blocks b bw bw f := by
  let f (y x : Nat) : α := (b.cell (blockIndex bw (y / kBlockDim) (x / kBlockDim) (y % kBlockDim)
    (x % kBlockDim))).getD default
  refine ⟨f, h.size, fun i hi => ?_⟩
  obtain ⟨v, hv⟩ := Option.isSome_iff_exists.mp (h.cell i (h.size ▸ hi))
  obtain ⟨y, hy, x, hx, r, hr, c, hc, rfl⟩ := eq_blockIndex (h.size ▸ hi)
  simp only [f, rowAt_blockIndex hx hr hc, colAt_blockIndex hx hr hc, index_div hr, index_div hc,
    index_mod hr, index_mod hc, hv, Option.getD_some]

theorem cell_lt {block blocks row col : Nat} (h : block < blocks) (hrow : row < kBlockDim)
    (hcol : col < kBlockDim) :
    kBlockArea * block + (row * kBlockDim + col) < kBlockArea * blocks := by
  rw [Nat.mul_comm kBlockArea block]
  exact index_lt h (inBlock_lt hrow hcol)

end Initialized

section Inside

variable {α : Type} [Zero α] [Add α] [Mul α] {a b c : Matrix α} {aa bb data : Buf α}
  {hb wb kb : Nat}

theorem blockSum_ok {aaBlock bbBlock aaBlocks bbBlocks row col : Nat}
    (haa : Initialized aa (kBlockArea * aaBlocks)) (hbb : Initialized bb (kBlockArea * bbBlocks))
    (haaBlock : aaBlock < aaBlocks) (hbbBlock : bbBlock < bbBlocks) (hrow : row < kBlockDim)
    (hcol : col < kBlockDim) :
    ∃ sum, blockSum aa bb (kBlockArea * aaBlock) (kBlockArea * bbBlock) row col = .ok sum := by
  have hterm (i : Nat) (hi : i < kBlockDim) : ∃ v,
      blockTerm aa bb (kBlockArea * aaBlock) (kBlockArea * bbBlock) row col i = .ok v := by
    obtain ⟨x, hx⟩ := haa.load (cell_lt haaBlock hrow hi)
    obtain ⟨y, hy⟩ := hbb.load (cell_lt hbbBlock hi hcol)
    refine ⟨x * y, ?_⟩
    rw [blockTerm, hx, hy]
    rfl
  obtain ⟨v0, h0⟩ := hterm 0 (by decide)
  obtain ⟨v1, h1⟩ := hterm 1 (by decide)
  obtain ⟨v2, h2⟩ := hterm 2 (by decide)
  obtain ⟨v3, h3⟩ := hterm 3 (by decide)
  obtain ⟨v4, h4⟩ := hterm 4 (by decide)
  obtain ⟨v5, h5⟩ := hterm 5 (by decide)
  obtain ⟨v6, h6⟩ := hterm 6 (by decide)
  obtain ⟨v7, h7⟩ := hterm 7 (by decide)
  simp only [blockSum, h0, h1, h2, h3, h4, h5, h6, h7, Checked.ok_bind]
  exact ⟨_, rfl⟩

omit [Add α] [Mul α] in
/-- A remapped matrix has been stored to as a whole. -/
theorem blockRemap_initialized {bw bh : Nat} (ha : a.Full (kBlockDim * bw) (kBlockDim * bh)) :
    Yields (blockRemap a) fun m => Initialized m.data (kBlockArea * (bw * bh)) := by
  have : Inhabited α := ⟨0⟩
  obtain ⟨f, hf⟩ := ha.exists_holds
  refine (blockRemap_yields hf).mono fun m hm => ⟨?_, fun i hi => ?_⟩
  · rw [hm.size, blockArea_mul]
  · rw [hm.element i (by rw [hm.size, ← blockArea_mul]; exact hi)]
    rfl

/-- The shapes for which the blocked product stays inside its buffers, in blocks: `c` has `hb` rows
and `wb` columns of blocks, and `a` has `kb` columns. -/
def Inside (hb wb kb : Nat) : Prop := hb = 0 ∨ wb = 0 ∨ hb = wb ∧ (kb = 0 ∨ hb ≤ kb)

theorem Inside.aaBlock_lt (h : Inside hb wb kb) {y x k : Nat} (hy : y < wb) (hx : x < hb)
    (hk : k < kb) : y * hb + k < kb * hb := by
  rcases h with rfl | rfl | ⟨rfl, rfl | hle⟩
  · omega
  · omega
  · omega
  · have hmul := Nat.mul_le_mul_left y hle
    have hlt := @index_lt kb hb y k hy hk
    omega

theorem Inside.bbBlock_lt (h : Inside hb wb kb) {y x k : Nat} (hy : y < wb) (hx : x < hb)
    (hk : k < kb) : k * hb + x < wb * kb := by
  rcases h with rfl | rfl | ⟨rfl, -⟩
  · omega
  · omega
  · exact index_lt hk hx

omit [Zero α] [Add α] [Mul α] in
/-- Where there are no blocks there is nothing to map back. -/
theorem blockUnmap_empty (hne : hb = 0 ∨ wb = 0) :
    Yields (blockUnmap ⟨data, kBlockDim * hb, kBlockDim * wb⟩) fun m =>
      m.Sized (kBlockDim * wb) (kBlockDim * hb) ∧ m.data.size = 0 := by
  unfold blockUnmap
  refine .assert_bind (Nat.mul_mod_right _ _) (.assert_bind (Nat.mul_mod_right _ _) ?_)
  simp only [Nat.mul_div_cancel_left _ (show 0 < kBlockDim by decide)]
  have hzero : kBlockDim * hb * (kBlockDim * wb) = 0 := by
    rcases hne with rfl | rfl
    · rw [Nat.mul_zero, Nat.zero_mul]
    · rw [Nat.mul_zero, Nat.mul_zero]
  refine .bind (P := fun d : Buf α => d.size = 0) ?_ fun d hd => .pure ?_
  · refine Yields.loop (fun _ (d : Buf α) => d.size = 0) hzero fun y d hy hd => ?_
    exact Yields.loop (fun _ (d : Buf α) => d.size = 0) hd fun x d' hx _ => by omega
  · refine ⟨⟨rfl, rfl, ?_⟩, hd⟩
    rw [Nat.mul_comm (kBlockDim * wb), hzero]
    exact hd

omit [Add α] [Mul α] in
theorem Inside.blockUnmap (h : Inside hb wb kb)
    (hdata : Initialized data (kBlockArea * (wb * hb))) :
    Yields (blockUnmap ⟨data, kBlockDim * hb, kBlockDim * wb⟩) fun m =>
      Initialized m.data (kBlockDim * wb * (kBlockDim * hb)) := by
  have : Inhabited α := ⟨0⟩
  by_cases hne : hb = 0 ∨ wb = 0
  · refine (blockUnmap_empty hne).mono fun m ⟨hm, hzero⟩ => ⟨hm.size_eq, fun i hi => ?_⟩
    rw [← hm.size_eq, hzero] at hi
    exact absurd hi (Nat.not_lt_zero i)
  · obtain rfl : hb = wb := by
      rcases h with h | h | ⟨h, -⟩ <;> omega
    rw [blockArea_mul] at hdata
    obtain ⟨f, hf⟩ := hdata.blockMajor
    refine (blockUnmap_yields (a := ⟨data, kBlockDim * hb, kBlockDim * hb⟩) rfl rfl hf).mono
      fun m hm => ?_
    exact ⟨hm.size_eq, hm.full.initialized⟩

theorem Inside.yields (h : Inside hb wb kb) (ha : a.Full (kBlockDim * kb) (kBlockDim * hb))
    (hb' : b.Full (kBlockDim * wb) (kBlockDim * kb))
    (hc : c.Sized (kBlockDim * wb) (kBlockDim * hb)) :
    Yields (blockRemapMatMul a b c) fun m => m.Full (kBlockDim * wb) (kBlockDim * hb) := by
  unfold blockRemapMatMul
  rw [ha.width_eq, ha.height_eq, hb'.width_eq, hb'.height_eq, hc.width_eq, hc.height_eq]
  refine .assert_bind rfl (.assert_bind rfl (.assert_bind rfl ?_))
  refine .bind (blockRemap_initialized ha) fun aa haa => ?_
  refine .bind (blockRemap_initialized hb') fun bb hbb => ?_
  have hcells : c.data.size = kBlockArea * (wb * hb) := by rw [hc.size_eq, blockArea_mul]
  refine .bind (memset_yields 0 (by rw [hc.size_eq, Nat.mul_comm])) fun zeroed hzeroed => ?_
  simp only [Nat.mul_div_cancel_left _ (show 0 < kBlockDim by decide)]
  have hinit : Initialized zeroed (kBlockArea * (wb * hb)) := by
    refine ⟨hzeroed.size.trans hcells, fun i hi => ?_⟩
    rw [hzeroed.set i (by rw [← blockArea_mul]; exact hi)]
    rfl
  refine .bind (P := fun data => Initialized data (kBlockArea * (wb * hb))) ?_ fun data hdata => ?_
  · refine Yields.loop (fun _ data => Initialized data (kBlockArea * (wb * hb))) hinit
      fun y d hy hd => ?_
    refine Yields.loop (fun _ data => Initialized data (kBlockArea * (wb * hb))) hd
      fun x d hx hd => ?_
    refine Yields.loop (fun _ data => Initialized data (kBlockArea * (wb * hb))) hd
      fun k d hk hd => ?_
    refine Yields.loop (fun _ data => Initialized data (kBlockArea * (wb * hb))) hd
      fun row d hrow hd => ?_
    refine Yields.loop (fun _ data => Initialized data (kBlockArea * (wb * hb))) hd
      fun col d hcol hd => ?_
    obtain ⟨sum, hsum⟩ := blockSum_ok haa hbb (h.aaBlock_lt hy hx hk) (h.bbBlock_lt hy hx hk) hrow
      hcol
    have hcell : kBlockArea * (y * hb + x) + (row * kBlockDim + col) < kBlockArea * (wb * hb) :=
      cell_lt (Nat.mul_comm hb wb ▸ index_lt hy hx) hrow hcol
    obtain ⟨v, hv⟩ := hd.load hcell
    rw [hsum, Checked.ok_bind, hv, Checked.ok_bind]
    exact .store (hd.size ▸ hcell) (hd.put _ _)
  · refine .bind (h.blockUnmap hdata) fun m hm => .pure ?_
    exact ⟨⟨rfl, rfl, hm.size⟩, hm.cell⟩

omit [Zero α] [Add α] [Mul α] in
/-- The cells that mapping back stores to, for `wb` rows of `hb` blocks. -/
theorem blockUnmap_touches {m : Matrix α}
    (h : blockUnmap ⟨data, kBlockDim * hb, kBlockDim * wb⟩ = .ok m) :
    Touches (fun i => ∃ y < wb, ∃ x < hb, ∃ row < kBlockDim, ∃ col < kBlockDim,
      i = (y * kBlockDim + row) * (kBlockDim * wb) + (x * kBlockDim + col))
      (.alloc (kBlockDim * hb * (kBlockDim * wb))) m.data := by
  unfold blockUnmap at h
  obtain ⟨_, -, h⟩ := Checked.of_bind h
  obtain ⟨_, -, h⟩ := Checked.of_bind h
  simp only [Nat.mul_div_cancel_left _ (show 0 < kBlockDim by decide)] at h
  obtain ⟨d, hloop, hm⟩ := Checked.of_bind h
  cases hm
  refine Touches.loop _ (fun y u v hy h => ?_) hloop
  refine Touches.loop _ (fun x u v hx h => ?_) h
  refine Touches.loop _ (fun row u v hrow h => ?_) h
  refine Touches.loop _ (fun col u v hcol h => ?_) h
  obtain ⟨val, -, h⟩ := Checked.of_bind h
  exact Touches.store h

/-- `w` rows, of which the last starts at the last multiple of `w` and holds `h` cells, are in
`h * w` cells only if there are as many cells in a row. -/
theorem le_of_last_lt {w h : Nat} (hlt : (w - 1) * w + (h - 1) < h * w) : w ≤ h := by
  by_contra hle
  have hmul : h * w ≤ (w - 1) * w := Nat.mul_le_mul_right w (by omega)
  omega

/-- Cells `i * w + j` with `i < w` and `j < h` reach the last of `h * w` cells only if there are as
many rows. -/
theorem le_of_last_eq {w h i j : Nat} (hw : 1 < w) (hi : i < w) (hj : j < h)
    (heq : h * w - 1 = i * w + j) : h ≤ w := by
  by_contra hle
  obtain ⟨d, rfl⟩ : ∃ d, h = w + 1 + d := ⟨h - (w + 1), by omega⟩
  have hcells : (w + 1 + d) * w = w * w + w + d * w := by rw [Nat.add_mul, Nat.succ_mul]
  have hrows : i * w + w ≤ w * w := by
    rw [← Nat.succ_mul]
    exact Nat.mul_le_mul_right w hi
  have hd : d ≤ d * w := Nat.le_mul_of_pos_right d (by omega)
  omega

omit [Zero α] [Add α] [Mul α] in
/-- Mapping back that ends without a fault and leaves no cell out is of a square matrix. -/
theorem square_of_blockUnmap {m : Matrix α} (hhb : 0 < hb) (hwb : 0 < wb)
    (h : blockUnmap ⟨data, kBlockDim * hb, kBlockDim * wb⟩ = .ok m)
    (hm : Initialized m.data (kBlockDim * wb * (kBlockDim * hb))) : hb = wb := by
  have htouch := blockUnmap_touches h
  have hwide : 0 < kBlockDim := by decide
  have hle : wb ≤ hb := by
    by_contra hlt
    have hlast := htouch.within _ ⟨wb - 1, by omega, hb - 1, by omega, kBlockDim - 1, by omega,
      kBlockDim - 1, by omega, rfl⟩
    have hrow : (wb - 1) * kBlockDim + (kBlockDim - 1) = kBlockDim * wb - 1 := by
      rw [kBlockDim]
      omega
    have hcol : (hb - 1) * kBlockDim + (kBlockDim - 1) = kBlockDim * hb - 1 := by
      rw [kBlockDim]
      omega
    rw [hrow, hcol] at hlast
    exact absurd (Nat.le_of_mul_le_mul_left (le_of_last_lt hlast) hwide) hlt
  have hge : hb ≤ wb := by
    have hsize : kBlockDim * hb * (kBlockDim * wb) - 1 < kBlockDim * wb * (kBlockDim * hb) := by
      rw [Nat.mul_comm]
      exact Nat.sub_one_lt (Nat.ne_of_gt (Nat.mul_pos (Nat.mul_pos hwide hwb)
        (Nat.mul_pos hwide hhb)))
    -- The last cell has been stored to.
    obtain ⟨y, hy, x, hx, row, hrow, col, hcol, heq⟩ := by_contra fun hnot =>
      absurd (htouch.keep _ hnot ▸ hm.cell _ hsize) nofun
    exact Nat.le_of_mul_le_mul_left (le_of_last_eq (by rw [kBlockDim]; omega) (inMatrix_lt hy hrow)
      (inMatrix_lt hx hcol) heq) hwide
  omega

/-- What a blocked product that ends without a fault has loaded and mapped back. -/
theorem parts_of_blockRemapMatMul {m : Matrix α} (ha : a.Full (kBlockDim * kb) (kBlockDim * hb))
    (hc : c.Sized (kBlockDim * wb) (kBlockDim * hb)) (h : blockRemapMatMul a b c = .ok m) :
    (0 < hb → 0 < wb → 0 < kb → (wb - 1) * hb + (kb - 1) < kb * hb) ∧
      ∃ data ccc, blockUnmap ⟨data, kBlockDim * hb, kBlockDim * wb⟩ = .ok ccc ∧
        m.data = ccc.data := by
  unfold blockRemapMatMul at h
  rw [ha.width_eq, hc.width_eq, hc.height_eq] at h
  obtain ⟨_, -, h⟩ := Checked.of_bind h
  obtain ⟨_, -, h⟩ := Checked.of_bind h
  obtain ⟨_, -, h⟩ := Checked.of_bind h
  obtain ⟨aa, hremap, h⟩ := Checked.of_bind h
  obtain ⟨bb, -, h⟩ := Checked.of_bind h
  obtain ⟨zeroed, -, h⟩ := Checked.of_bind h
  obtain ⟨data, hloop, h⟩ := Checked.of_bind h
  obtain ⟨ccc, hunmap, h⟩ := Checked.of_bind h
  have haa := (blockRemap_initialized ha).of_eq hremap
  cases h
  refine ⟨fun hhb hwb hkb => ?_, data, ccc, hunmap, rfl⟩
  simp only [Nat.mul_div_cancel_left _ (show 0 < kBlockDim by decide)] at hloop
  -- The first cell of the last round, in the last row of blocks.
  obtain ⟨_, _, hloop⟩ := loop_round (show wb - 1 < wb by omega) hloop
  obtain ⟨_, _, hloop⟩ := loop_round hhb hloop
  obtain ⟨_, _, hloop⟩ := loop_round (show kb - 1 < kb by omega) hloop
  obtain ⟨_, _, hloop⟩ := loop_round (show 0 < kBlockDim by decide) hloop
  obtain ⟨_, _, hloop⟩ := loop_round (show 0 < kBlockDim by decide) hloop
  obtain ⟨_, hsum, -⟩ := Checked.of_bind hloop
  obtain ⟨_, hterm, -⟩ := Checked.of_bind hsum
  obtain ⟨_, hload, -⟩ := Checked.of_bind hterm
  have hlt := Buf.load_lt hload
  rw [haa.size] at hlt
  exact Nat.lt_of_mul_lt_mul_left (Nat.lt_of_le_of_lt (Nat.le_add_right _ _) hlt)

theorem inside_of_blockRemapMatMul {m : Matrix α} (ha : a.Full (kBlockDim * kb) (kBlockDim * hb))
    (hc : c.Sized (kBlockDim * wb) (kBlockDim * hb)) (h : blockRemapMatMul a b c = .ok m)
    (hm : m.Full (kBlockDim * wb) (kBlockDim * hb)) : Inside hb wb kb := by
  obtain ⟨hload, data, ccc, hunmap, hdata⟩ := parts_of_blockRemapMatMul ha hc h
  have hccc : Initialized ccc.data (kBlockDim * wb * (kBlockDim * hb)) := by
    rw [← hdata]
    exact ⟨hm.size_eq, hm.initialized⟩
  by_cases hhb : 0 < hb
  · by_cases hwb : 0 < wb
    · obtain rfl := square_of_blockUnmap hhb hwb hunmap hccc
      refine .inr (.inr ⟨rfl, ?_⟩)
      by_cases hkb : 0 < kb
      · exact .inr (le_of_last_lt (hload hhb hhb hkb))
      · exact .inl (by omega)
    · exact .inr (.inl (by omega))
  · exact .inl (by omega)

end Inside

section Program

variable {α : Type} [Zero α] [Add α] [Mul α] {a b c : Matrix α} {n m k : Nat}

/-- Every access of the blocked product is inside its buffer and every element of its result is
stored to, exactly for these shapes of `c`, `n` wide and `m` high, and `a`, `k` wide. -/
theorem blockRemapMatMul_full_iff (hn : 8 ∣ n) (hm : 8 ∣ m) (hk : 8 ∣ k) (ha : a.Full k m)
    (hb : b.Full n k) (hc : c.Sized n m) :
    Yields (blockRemapMatMul a b c) (fun r => r.Full n m) ↔
      n = 0 ∨ m = 0 ∨ n = m ∧ (k = 0 ∨ m ≤ k) := by
  obtain ⟨wb, rfl⟩ := hn
  obtain ⟨hb', rfl⟩ := hm
  obtain ⟨kb, rfl⟩ := hk
  have hinside : Inside hb' wb kb ↔
      8 * wb = 0 ∨ 8 * hb' = 0 ∨ 8 * wb = 8 * hb' ∧ (8 * kb = 0 ∨ 8 * hb' ≤ 8 * kb) := by
    unfold Inside
    omega
  rw [← hinside]
  constructor
  · rintro ⟨r, hr, hfull⟩
    exact inside_of_blockRemapMatMul ha hc hr hfull
  · intro h
    exact h.yields ha hb hc

theorem blockRemapMatMul_full_sixteen :
    Yields (blockRemapMatMul (.ofFn 24 16 fun y x => (y - x : Int))
      (.ofFn 16 24 fun y x => (y + x : Int)) ⟨.alloc 256, 16, 16⟩) (fun r => r.Full 16 16) :=
  (blockRemapMatMul_full_iff (by decide) (by decide) (by decide) (Matrix.ofFn_holds 24 16 _).full
    (Matrix.ofFn_holds 16 24 _).full ⟨rfl, rfl, rfl⟩).mpr (by decide)

/-- Where `c` is wider than high, a block past the last of `a` is loaded. -/
theorem blockRemapMatMul_not_full :
    ¬Yields (blockRemapMatMul (.ofFn 8 8 fun y x => (y - x : Int))
      (.ofFn 16 8 fun y x => (y + x : Int)) ⟨.alloc 128, 16, 8⟩) (fun r => r.Full 16 8) := by
  rintro ⟨r, hr, hfull⟩
  have hinside : Inside 1 2 1 := inside_of_blockRemapMatMul (Matrix.ofFn_holds 8 8 _).full
    ⟨rfl, rfl, rfl⟩ hr hfull
  unfold Inside at hinside
  omega

end Program

end SoftwareDynamics.Interaction

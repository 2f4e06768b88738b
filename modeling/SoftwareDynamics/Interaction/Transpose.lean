import SoftwareDynamics.Interaction.Simple
import Mathlib.Algebra.Ring.Int.Defs

/-! The transpose of `interaction.cc` in tiles of 8 by 8, and the product that uses it twice. -/

namespace SoftwareDynamics.Interaction

open ProofKit

section Transposed

variable {α : Type}

/-- Returns the transpose of the given matrix. -/
def transposed (a : Matrix α) : Checked (Matrix α) := do
  let n := a.width * a.height
  let ret : Matrix α := ⟨.alloc n, a.height, a.width⟩
  let data ← loop a.height (fun y data =>
    loop a.width (fun x data => do
      let val ← a.data.load (y * a.width + x)
      data.store (x * a.height + y) val) data) ret.data
  pure { ret with data }

/-- Returns the transpose of the given matrix, row by row within each tile. -/
def transposed8x8 (a : Matrix α) : Checked (Matrix α) := do
  assert (a.height % 8 = 0)
  assert (a.width % 8 = 0)
  let ret : Matrix α := ⟨.alloc (a.width * a.height), a.height, a.width⟩
  let blockW := a.width / 8
  let blockH := a.height / 8
  let data ← loop blockH (fun aBlockY data =>
    loop blockW (fun aBlockX data =>
      loop 8 (fun row data =>
        loop 8 (fun col data => do
          let aX := aBlockX * 8 + col
          let aY := aBlockY * 8 + row
          let val ← a.data.load (aY * a.width + aX)
          let retX := aY
          let retY := aX
          data.store (retY * ret.width + retX) val) data) data) data) ret.data
  pure { ret with data }

/-- Returns the transpose of the given matrix, column by column within each tile. -/
def transposed8x8Flipped (a : Matrix α) : Checked (Matrix α) := do
  assert (a.height % 8 = 0)
  assert (a.width % 8 = 0)
  let ret : Matrix α := ⟨.alloc (a.width * a.height), a.height, a.width⟩
  let blockW := a.width / 8
  let blockH := a.height / 8
  let data ← loop blockH (fun aBlockY data =>
    loop blockW (fun aBlockX data =>
      loop 8 (fun col data =>
        loop 8 (fun row data => do
          let aX := aBlockX * 8 + col
          let aY := aBlockY * 8 + row
          let val ← a.data.load (aY * a.width + aX)
          let retX := aY
          let retY := aX
          data.store (retY * ret.width + retX) val) data) data) data) ret.data
  pure { ret with data }

variable {a : Matrix α} {f : Nat → Nat → α} {width height bw bh : Nat}

/-- The element in cell `i` of the transpose of a matrix that holds `f`. -/
def transposedAt (f : Nat → Nat → α) (height i : Nat) : α := f (i % height) (i / height)

/-- The body of all three transposes, which copies one element. -/
theorem yields_copy (ha : a.Holds width height f) {y x : Nat} (hy : y < height) (hx : x < width)
    {data : Buf α} (hsize : data.size = width * height) :
    Yields (do data.store (x * height + y) (← a.data.load (y * width + x)))
      (FillsOnce (transposedAt f height) (fun i => i = x * height + y) data) := by
  refine .load_bind (ha.element_lt hy hx) (ha.element y x hy hx) (.store ?_ (.put ?_))
  · rw [hsize]
    simpa [Nat.mul_comm] using index_lt hx hy
  · rw [transposedAt, index_div hy, index_mod hy]

/-- The cell of the transpose for the element in row `row` and column `col` of a tile of `a`, which
has `bh` tiles above one another. -/
def tileCell (bh blockY blockX row col : Nat) : Nat :=
  (blockX * 8 + col) * (8 * bh) + (blockY * 8 + row)

/-- Which tile a cell of the transpose belongs to, and where it lies in it, can be told from the
cell. -/
theorem tileCell_told {blockY blockX row col : Nat} (hy : blockY < bh) (hrow : row < 8)
    (hcol : col < 8) :
    tileCell bh blockY blockX row col % (8 * bh) / 8 = blockY ∧
      tileCell bh blockY blockX row col / (8 * bh) / 8 = blockX ∧
      tileCell bh blockY blockX row col % (8 * bh) % 8 = row ∧
      tileCell bh blockY blockX row col / (8 * bh) % 8 = col := by
  have hlt : blockY * 8 + row < 8 * bh := by omega
  rw [tileCell, index_mod hlt, index_div hlt]
  exact ⟨index_div hrow, index_div hcol, index_mod hrow, index_mod hcol⟩

/-- Every cell of the transpose belongs to a tile. -/
theorem eq_tileCell {i : Nat} (hi : i < 8 * bh * (8 * bw)) :
    ∃ y < bh, ∃ x < bw, ∃ row < 8, ∃ col < 8, i = tileCell bh y x row col := by
  obtain ⟨hx, hy, hi'⟩ := index_split hi
  obtain ⟨hbx, hcol, hx'⟩ := index_split hx
  obtain ⟨hby, hrow, hy'⟩ := index_split hy
  refine ⟨_, hby, _, hbx, _, hrow, _, hcol, ?_⟩
  rw [tileCell, hx', hy', hi']

/-- Loops over the tiles whose bodies fill one tile each fill the whole buffer. -/
theorem yields_tiles {T : Nat → α} {tile : Nat → Nat → Buf α → Checked (Buf α)} {b : Buf α}
    (step : ∀ y x d, y < bh → x < bw → d.size = b.size → Yields (tile y x d)
      (FillsOnce T (fun i => ∃ row < 8, ∃ col < 8, i = tileCell bh y x row col) d)) :
    Yields (loop bh (fun y data => loop bw (fun x data => tile y x data) data) b)
      (FillsOnce T (fun i => ∃ y < bh, ∃ x < bw, ∃ row < 8, ∃ col < 8,
        i = tileCell bh y x row col) b) := by
  refine Yields.fillOnce_loop (fun y i => ∃ x < bw, ∃ row < 8, ∃ col < 8,
    i = tileCell bh y x row col) (· % (8 * bh) / 8) ?_ fun y d hy hd => ?_
  · rintro y hy _ ⟨x, hx, row, hrow, col, hcol, rfl⟩
    exact (tileCell_told hy hrow hcol).1
  · refine Yields.fillOnce_loop (fun x i => ∃ row < 8, ∃ col < 8,
      i = tileCell bh y x row col) (· / (8 * bh) / 8) ?_ fun x d' hx hd' => ?_
    · rintro x hx _ ⟨row, hrow, col, hcol, rfl⟩
      exact (tileCell_told hy hrow hcol).2.1
    · exact step y x d' hy hx (hd'.trans hd)

/-- The transpose of `f`, made by one store to each cell of a fresh buffer. -/
structure Transposes (m : Matrix α) (width height : Nat) (f : Nat → Nat → α) : Prop where
  holds : m.Holds height width (fun y x => f x y)
  once : m.StoredOnce

theorem Transposes.of_fillsOnce {b : Buf α} {S : Nat → Prop}
    (h : FillsOnce (transposedAt f height) S (.alloc (width * height)) b)
    (hS : ∀ i < height * width, S i) : Transposes ⟨b, height, width⟩ width height f where
  holds := .of_fills (Nat.mul_comm _ _) h.toFills fun _ _ hy hx => hS _ (index_lt hy hx)
  once := .of_fillsOnce h fun i hi => hS i (Nat.mul_comm width height ▸ hi)

theorem transposed_yields (ha : a.Holds width height f) :
    Yields (transposed a) (fun m => Transposes m width height f) := by
  unfold transposed
  rw [ha.width_eq, ha.height_eq]
  refine .bind (Yields.fillOnce_loop (T := transposedAt f height)
    (fun y i => ∃ x < width, i = x * height + y) (· % height) ?_ fun y d hy hd => ?_) ?_
  · rintro y hy _ ⟨x, hx, rfl⟩
    exact index_mod hy
  · refine Yields.fillOnce_loop (fun x i => i = x * height + y) (· / height) ?_
      fun x d' hx hd' => ?_
    · rintro x hx _ rfl
      exact index_div hy
    · exact yields_copy ha hy hx (hd'.trans hd)
  · intro d hd
    refine .pure (.of_fillsOnce hd fun i hi => ?_)
    obtain ⟨hx, hy, hi'⟩ := index_split hi
    exact ⟨_, hy, _, hx, hi'.symm⟩

/-- Transposing swaps the rows and the columns, and transposing again swaps them back. -/
theorem transposed_transposed (ha : a.Holds width height f) :
    ∃ t t', transposed a = .ok t ∧ t.Holds height width (fun y x => f x y) ∧
      transposed t = .ok t' ∧ t'.Holds width height f := by
  obtain ⟨t, ht, hswap⟩ := transposed_yields ha
  obtain ⟨t', ht', hback⟩ := transposed_yields hswap.holds
  exact ⟨t, t', ht, hswap.holds, ht', hback.holds⟩

theorem transposed_transposed_small :
    ∃ t t', transposed (.ofFn 3 2 fun y x => y * 3 + x) = .ok t ∧
      t.Holds 2 3 (fun y x => x * 3 + y) ∧
      transposed t = .ok t' ∧ t'.Holds 3 2 (fun y x => y * 3 + x) :=
  transposed_transposed (Matrix.ofFn_holds 3 2 _)

theorem transposed8x8_transposes (ha : a.Holds width height f) (hw : 8 ∣ width)
    (hh : 8 ∣ height) :
    Yields (transposed8x8 a) (fun m => Transposes m width height f) := by
  obtain ⟨bw, rfl⟩ := hw
  obtain ⟨bh, rfl⟩ := hh
  unfold transposed8x8
  rw [ha.width_eq, ha.height_eq]
  refine .assert_bind (Nat.mul_mod_right 8 bh) (.assert_bind (Nat.mul_mod_right 8 bw) ?_)
  simp only [Nat.mul_div_cancel_left _ (show 0 < 8 by decide)]
  refine .bind (yields_tiles (T := transposedAt f (8 * bh)) fun y x d hy hx hd => ?_) fun d hd =>
    .pure (.of_fillsOnce hd fun i hi => eq_tileCell hi)
  refine Yields.fillOnce_loop (fun row i => ∃ col < 8, i = tileCell bh y x row col)
    (· % (8 * bh) % 8) ?_ fun row d' hrow hd' => ?_
  · rintro row hrow _ ⟨col, hcol, rfl⟩
    exact (tileCell_told hy hrow hcol).2.2.1
  · refine Yields.fillOnce_loop (fun col i => i = tileCell bh y x row col)
      (· / (8 * bh) % 8) ?_ fun col d'' hcol hd'' => ?_
    · rintro col hcol _ rfl
      exact (tileCell_told hy hrow hcol).2.2.2
    · exact yields_copy ha (by omega) (by omega) (hd''.trans (hd'.trans hd))

theorem transposed8x8Flipped_transposes (ha : a.Holds width height f) (hw : 8 ∣ width)
    (hh : 8 ∣ height) :
    Yields (transposed8x8Flipped a) (fun m => Transposes m width height f) := by
  obtain ⟨bw, rfl⟩ := hw
  obtain ⟨bh, rfl⟩ := hh
  unfold transposed8x8Flipped
  rw [ha.width_eq, ha.height_eq]
  refine .assert_bind (Nat.mul_mod_right 8 bh) (.assert_bind (Nat.mul_mod_right 8 bw) ?_)
  simp only [Nat.mul_div_cancel_left _ (show 0 < 8 by decide)]
  refine .bind (yields_tiles (T := transposedAt f (8 * bh)) fun y x d hy hx hd => ?_) fun d hd =>
    .pure (.of_fillsOnce hd fun i hi => eq_tileCell hi)
  refine (Yields.fillOnce_loop (fun col i => ∃ row < 8, i = tileCell bh y x row col)
    (· / (8 * bh) % 8) ?_ fun col d' hcol hd' => ?_).mono fun d' hd' => hd'.congr fun i => ?_
  · rintro col hcol _ ⟨row, hrow, rfl⟩
    exact (tileCell_told hy hrow hcol).2.2.2
  · refine Yields.fillOnce_loop (fun row i => i = tileCell bh y x row col)
      (· % (8 * bh) % 8) ?_ fun row d'' hrow hd'' => ?_
    · rintro row hrow _ rfl
      exact (tileCell_told hy hrow hcol).2.2.1
    · exact yields_copy ha (by omega) (by omega) (hd''.trans (hd'.trans hd))
  · constructor
    · rintro ⟨col, hcol, row, hrow, hi⟩
      exact ⟨row, hrow, col, hcol, hi⟩
    · rintro ⟨row, hrow, col, hcol, hi⟩
      exact ⟨col, hcol, row, hrow, hi⟩

/-- The three transposes of a matrix have the same dimensions and elements, made by one store to
each cell and without a fault. -/
theorem transposes_agree (ha : a.Holds width height f) (hw : 8 ∣ width) (hh : 8 ∣ height) :
    Yields (transposed a) (fun m => Transposes m width height f) ∧
      Yields (transposed8x8 a) (fun m => Transposes m width height f) ∧
      Yields (transposed8x8Flipped a) (fun m => Transposes m width height f) :=
  ⟨transposed_yields ha, transposed8x8_transposes ha hw hh,
    transposed8x8Flipped_transposes ha hw hh⟩

theorem transposes_agree_wide :
    Yields (transposed (.ofFn 16 8 fun y x => y * 16 + x))
        (fun m => Transposes m 16 8 fun y x => y * 16 + x) ∧
      Yields (transposed8x8 (.ofFn 16 8 fun y x => y * 16 + x))
        (fun m => Transposes m 16 8 fun y x => y * 16 + x) ∧
      Yields (transposed8x8Flipped (.ofFn 16 8 fun y x => y * 16 + x))
        (fun m => Transposes m 16 8 fun y x => y * 16 + x) :=
  transposes_agree (Matrix.ofFn_holds 16 8 _) (by decide) (by decide)

theorem transposed8x8Flipped_yields (ha : a.Holds width height f) (hw : 8 ∣ width)
    (hh : 8 ∣ height) :
    Yields (transposed8x8Flipped a) (fun m => m.Holds height width (fun y x => f x y)) :=
  (transposed8x8Flipped_transposes ha hw hh).mono fun _ hm => hm.holds

end Transposed

section Columns

variable {α : Type} {height : Nat}

/-- What the columns before the `m`th leave in the buffer that held `b`: in each cell they store
to, the element of the last of these columns that does so. -/
structure Columns (F : Nat → Nat → α) (height m : Nat) (b b' : Buf α) : Prop where
  size : b'.size = b.size
  last : ∀ row < height, ∀ col < m,
    (∀ row' < height, ∀ col' < m, row' * height + col' = row * height + col → col' ≤ col) →
    b'.cell (row * height + col) = some (F row col)
  keep : ∀ p, (∀ row < height, ∀ col < m, row * height + col ≠ p) → b'.cell p = b.cell p

theorem Columns.zero (F : Nat → Nat → α) (height : Nat) (b : Buf α) : Columns F height 0 b b :=
  ⟨rfl, fun _ _ _ h => absurd h (Nat.not_lt_zero _), fun _ _ => rfl⟩

theorem Columns.succ {F : Nat → Nat → α} {m : Nat} {b b' b'' : Buf α} {T : Nat → α}
    (h : Columns F height m b b')
    (hfill : Fills T (fun p => ∃ row < height, p = row * height + m) b' b'')
    (hT : ∀ row < height, T (row * height + m) = F row m) : Columns F height (m + 1) b b'' where
  size := hfill.size.trans h.size
  last row hrow col hcol hlast := by
    rcases Nat.lt_succ_iff_lt_or_eq.mp hcol with hlt | rfl
    · rw [hfill.keep, h.last row hrow col hlt]
      · exact fun row' hrow' col' hcol' => hlast row' hrow' col' (by omega)
      · rintro ⟨row', hrow', heq⟩
        have := hlast row' hrow' m (by omega) heq.symm
        omega
    · rw [hfill.set _ ⟨row, hrow, rfl⟩, hT row hrow]
  keep p hp := by
    rw [hfill.keep, h.keep p fun row hrow col hcol => hp row hrow col (by omega)]
    rintro ⟨row, hrow, rfl⟩
    exact hp row hrow m (by omega) rfl

end Columns

section Shift

variable {width height : Nat}

/-- Stores to one cell are whole multiples of the height apart. -/
theorem column_shift {row col i j : Nat} (hi : i < height)
    (heq : row * height + col = j * height + i) :
    row + col / height = j ∧ col = i + col / height * height := by
  have hdiv : (row * height + col) / height = row + col / height := by
    rw [Nat.mul_comm, Nat.mul_add_div (by omega)]
  have hmod : (row * height + col) % height = col % height := by
    rw [Nat.mul_comm, Nat.mul_add_mod]
  rw [heq, index_div hi] at hdiv
  rw [heq, index_mod hi] at hmod
  have := Nat.div_add_mod' col height
  omega

/-- How far right of column `i` the last store to element `(j, i)` of the relabelled buffer is
made, in multiples of the height. -/
def shift (width height i j : Nat) : Nat := min j ((width - 1 - i) / height)

theorem shift_le {i j : Nat} : shift width height i j ≤ j := Nat.min_le_left _ _

theorem shift_lt {i j : Nat} (hi : i < width) :
    i + shift width height i j * height < width := by
  have h1 : shift width height i j * height ≤ (width - 1 - i) / height * height :=
    Nat.mul_le_mul_right _ (Nat.min_le_right _ _)
  have h2 := Nat.div_mul_le_self (width - 1 - i) height
  omega

theorem le_shift {row col i j : Nat} (hi : i < height) (hcol : col < width)
    (heq : row * height + col = j * height + i) : col / height ≤ shift width height i j := by
  obtain ⟨hrow, hsplit⟩ := column_shift hi heq
  refine Nat.le_min.mpr ⟨by omega, (Nat.le_div_iff_mul_le (by omega)).mpr ?_⟩
  omega

theorem shift_cell {i j : Nat} : (j - shift width height i j) * height +
    (i + shift width height i j * height) = j * height + i := by
  have h := Nat.add_mul (j - shift width height i j) (shift width height i j) height
  rw [Nat.sub_add_cancel shift_le] at h
  omega

/-- The element that the stores of `transposeMatMul` leave in row `i` and column `j` of `c`, whose
data was `old`, when the product is `F`. -/
def landed {α : Type} (F : Nat → Nat → α) (old : Nat → α) (width height i j : Nat) : α :=
  if j - shift width height i j < height then
    F (j - shift width height i j) (i + shift width height i j * height)
  else old (j * height + i)

theorem Columns.landed {α : Type} {F : Nat → Nat → α} {old : Nat → α} {b b' : Buf α} {i j : Nat}
    (h : Columns F height width b b') (hold : ∀ p < width * height, b.cell p = some (old p))
    (hle : height ≤ width) (hi : i < height) (hj : j < width) :
    b'.cell (j * height + i) = some (landed F old width height i j) := by
  unfold Interaction.landed
  split_ifs with hrow
  · rw [← shift_cell, h.last _ hrow _ (shift_lt (by omega))]
    intro row' hrow' col' hcol' heq
    have hshift := le_shift hi hcol' (heq.trans shift_cell)
    rw [(column_shift hi (heq.trans shift_cell)).2]
    exact Nat.add_le_add_left (Nat.mul_le_mul_right _ hshift) _
  · rw [h.keep, hold _ (by simpa [Nat.mul_comm] using index_lt hj hi)]
    intro row hrow' col hcol heq
    have hshift := le_shift hi hcol heq
    have hrows := (column_shift hi heq).1
    omega

end Shift

section Product

variable {α : Type} [Zero α] [Add α] [Mul α]

/-- The product of `a` and `b`, written by columns through a relabelled alias of `c`, whose
transpose then takes the place of `c`'s data. -/
def transposeMatMul (a b c : Matrix α) : Checked (Matrix α) := do
  assert (a.width = b.height)
  assert (a.height = c.height)
  assert (b.width = c.width)
  let bb ← transposed8x8Flipped b
  let cc : Matrix α := ⟨c.data, c.height, c.width⟩
  let data ← loop b.width (fun col data =>
    loop a.height (fun row data => do
      let sum ← loop a.width (fun k sum => do
        let x ← a.data.load (row * a.width + k)
        let y ← bb.data.load (col * bb.width + k)
        pure (sum + x * y)) 0
      data.store (row * cc.width + col) sum) data) cc.data
  let ccc ← transposed8x8Flipped { cc with data }
  pure { c with data := ccc.data }

variable {a b c bb : Matrix α} {f g : Nat → Nat → α} {n width height : Nat}

/-- The stores that `transposeMatMul` makes in one column, when they all fit. -/
theorem yields_column (ha : a.Holds n height f) (hb : bb.Holds n width (fun y x => g x y))
    {col rows : Nat} (hcol : col < width) (hrows : rows ≤ height) (data : Buf α)
    (hfit : ∀ row < rows, row * height + col < data.size) :
    Yields (loop rows (fun row data => do
      let sum ← loop n (fun k sum => do
        let x ← a.data.load (row * n + k)
        let y ← bb.data.load (col * n + k)
        pure (sum + x * y)) 0
      data.store (row * height + col) sum) data)
      (Fills (fun p => dot f g n ((p - col) / height) col)
        (fun p => ∃ row < rows, p = row * height + col) data) := by
  refine Yields.fill_loop (fun row p => p = row * height + col) fun row d hrow hd => ?_
  have hrow' : row < height := by omega
  refine .bind (yields_dot (g := g) (fun k hk => Buf.load_eq (ha.element_lt hrow' hk)
    (ha.element row k hrow' hk)) fun k hk => Buf.load_eq (hb.element_lt hcol hk)
    (hb.element col k hcol hk)) ?_
  rintro sum rfl
  refine .store (by rw [hd]; exact hfit row hrow) (.put ?_)
  rw [Nat.add_sub_cancel, Nat.mul_div_cancel _ (by omega)]

theorem transposeMatMul_yields {old : Nat → α} (ha : a.Holds n height f) (hb : b.Holds width n g)
    (hc : c.Sized width height) (hold : ∀ p < width * height, c.data.cell p = some (old p))
    (hn : 8 ∣ n) (hw : 8 ∣ width) (hh : 8 ∣ height) (hle : height ≤ width ∨ width = 0) :
    Yields (transposeMatMul a b c)
      (fun m => m.Holds width height (landed (dot f g n) old width height)) := by
  obtain ⟨data, cw, ch⟩ := c
  obtain ⟨hcw, hch, hsize⟩ := hc
  simp only at hcw hch hsize hold
  subst hcw hch
  unfold transposeMatMul
  rw [ha.width_eq, ha.height_eq, hb.width_eq]
  refine .assert_bind hb.height_eq.symm (.assert_bind rfl (.assert_bind rfl ?_))
  refine .bind (transposed8x8Flipped_yields hb hw hn) fun bb hbb => ?_
  rw [hbb.width_eq]
  refine .bind (Yields.loop (fun m d => Columns (dot f g n) ch m data d) (.zero _ _ _) ?_) ?_
  · intro col d hcol hd
    refine (yields_column ha hbb hcol (Nat.le_refl _) d fun row hrow => ?_).mono
      fun d' hd' => hd.succ hd' ?_
    · rw [hd.size, hsize]
      calc row * ch + col < row * ch + cw := by omega
        _ ≤ cw * (row + 1) := by
          have := Nat.mul_le_mul_left row (show ch ≤ cw by omega)
          rw [Nat.mul_succ, Nat.mul_comm cw row]
          omega
        _ ≤ cw * ch := Nat.mul_le_mul_left cw hrow
    · intro row hrow
      rw [Nat.add_sub_cancel, Nat.mul_div_cancel _ (by omega)]
  · intro d hd
    have hcc : (Matrix.mk d ch cw).Holds ch cw
        (fun j i => landed (dot f g n) old cw ch i j) := by
      refine ⟨⟨rfl, rfl, by rw [hd.size, hsize, Nat.mul_comm]⟩, fun j i hj hi => ?_⟩
      exact hd.landed hold (by omega) hi hj
    refine .bind (transposed8x8Flipped_yields hcc hh hw) fun ccc hccc => .pure ?_
    exact ⟨⟨rfl, rfl, hccc.size_eq⟩, hccc.element⟩

/-- Of a product with more rows than columns, row `width` of the first column has no cell. -/
theorem transposeMatMul_outOfBounds (ha : a.Holds n height f) (hb : b.Holds width n g)
    (hc : c.Sized width height) (hn : 8 ∣ n) (hw : 8 ∣ width) (hlt : width < height)
    (hpos : 0 < width) : transposeMatMul a b c = .error .outOfBounds := by
  obtain ⟨data, cw, ch⟩ := c
  obtain ⟨hcw, hch, hsize⟩ := hc
  simp only at hcw hch hsize
  subst hcw hch
  obtain ⟨bb, hbb_eq, hbb⟩ := transposed8x8Flipped_yields hb hw hn
  obtain ⟨d, hd_eq, hd⟩ := yields_column ha hbb hpos (Nat.le_of_lt hlt) data
    fun row hrow => by
      rw [hsize]
      exact Nat.mul_lt_mul_of_pos_right hrow (by omega)
  obtain ⟨sum, hsum_eq, -⟩ := yields_dot (g := g)
    (fun k hk => Buf.load_eq (ha.element_lt hlt hk) (ha.element cw k hlt hk))
    fun k hk => Buf.load_eq (hbb.element_lt hpos hk) (hbb.element 0 k hpos hk)
  unfold transposeMatMul
  simp only [ha.width_eq, ha.height_eq, hb.width_eq, hb.height_eq, assert, if_pos, hbb_eq,
    Checked.ok_bind, hbb.width_eq]
  have hfault : d.store (cw * ch + 0) sum = .error .outOfBounds :=
    Buf.store_outOfBounds sum (Nat.le_of_eq (by rw [hd.size, hsize, Nat.add_zero]))
  refine Checked.error_bind (loop_eq_error hpos (loop_zero _ _) ?_) _
  refine loop_eq_error hlt hd_eq ?_
  rw [hsum_eq]
  exact hfault

/-- The product by transposes gives the elements of the simple product just when there are no
columns, or there are no more rows than columns and every element lands in its place. -/
theorem sameContents_iff_landed {old : Nat → α} (ha : a.Holds n height f)
    (hb : b.Holds width n g) (hc : c.Sized width height)
    (hold : ∀ p < width * height, c.data.cell p = some (old p))
    (hn : 8 ∣ n) (hw : 8 ∣ width) (hh : 8 ∣ height) :
    Matrix.SameContents width height (transposeMatMul a b c) (simpleMatMul a b c) ↔
      width = 0 ∨ (height ≤ width ∧ ∀ i < height, ∀ j < width,
        landed (dot f g n) old width height i j = dot f g n i j) := by
  have hsimple := simpleMatMul_yields ha hb hc
  constructor
  · rintro ⟨F, htrans, hF⟩
    by_cases hzero : width = 0
    · exact .inl hzero
    by_cases hle : height ≤ width
    · refine .inr ⟨hle, fun i hi j hj => ?_⟩
      obtain ⟨m, hm, hmF⟩ := htrans
      obtain ⟨m', hm', hmF'⟩ := hF
      have hland := (transposeMatMul_yields ha hb hc hold hn hw hh (.inl hle)).of_eq hm
      rw [← hmF.unique hland hi hj, hmF'.unique (hsimple.of_eq hm') hi hj]
    · rw [transposeMatMul_outOfBounds ha hb hc hn hw (by omega) (by omega)] at htrans
      obtain ⟨m, hm, -⟩ := htrans
      cases hm
  · intro h
    refine ⟨dot f g n, ?_, hsimple⟩
    rcases h with hzero | ⟨hle, hland⟩
    · refine (transposeMatMul_yields ha hb hc hold hn hw hh (.inr hzero)).mono fun m hm => ?_
      exact hm.congr fun i hi j hj => absurd hj (by omega)
    · refine (transposeMatMul_yields ha hb hc hold hn hw hh (.inl hle)).mono fun m hm => ?_
      exact hm.congr hland

end Product

section Agreement

variable {α : Type} [CommRing α] {a b c : Matrix α} {f g : Nat → Nat → α} {old : Nat → α}
variable {n width height : Nat}

/-- The product by transposes is the simple product just when there are no columns, or there are
no more rows than columns and each element `(i, j)` of the product is the one that is stored last
where it belongs, or, where no element is stored, the old one. -/
theorem transposeMatMul_eq_simpleMatMul_iff (ha : a.Holds n height f) (hb : b.Holds width n g)
    (hc : c.Sized width height) (hold : ∀ p < width * height, c.data.cell p = some (old p))
    (hn : 8 ∣ n) (hw : 8 ∣ width) (hh : 8 ∣ height) :
    Matrix.SameContents width height (transposeMatMul a b c) (simpleMatMul a b c) ↔
      width = 0 ∨ (height ≤ width ∧ ∀ i < height, ∀ j < width,
        let s := shift width height i j
        (j - s < height → dot f g n (j - s) (i + s * height) = dot f g n i j) ∧
          (height ≤ j - s → old (j * height + i) = dot f g n i j)) := by
  rw [sameContents_iff_landed ha hb hc hold hn hw hh]
  refine or_congr Iff.rfl (and_congr Iff.rfl (forall₂_congr fun i _ => forall₂_congr fun j _ => ?_))
  unfold landed
  split_ifs with hrow
  · exact ⟨fun h => ⟨fun _ => h, fun hge => absurd hrow (by omega)⟩, fun h => h.1 hrow⟩
  · exact ⟨fun h => ⟨fun hlt => absurd hlt hrow, fun _ => h⟩, fun h => h.2 (by omega)⟩

theorem transposeMatMul_identity :
    Matrix.SameContents 8 8
      (transposeMatMul (.ofFn 8 8 fun y x => if y = x then (1 : Int) else 0)
        (.ofFn 8 8 fun y x => if y = x then 1 else 0) (.ofFn 8 8 fun _ _ => 0))
      (simpleMatMul (.ofFn 8 8 fun y x => if y = x then (1 : Int) else 0)
        (.ofFn 8 8 fun y x => if y = x then 1 else 0) (.ofFn 8 8 fun _ _ => 0)) := by
  refine (transposeMatMul_eq_simpleMatMul_iff (Matrix.ofFn_holds 8 8 _) (Matrix.ofFn_holds 8 8 _)
    (Matrix.ofFn_holds 8 8 _).toSized (fun _ _ => rfl) (Nat.dvd_refl 8) (Nat.dvd_refl 8)
    (Nat.dvd_refl 8)).mpr (.inr ⟨Nat.le_refl 8, ?_⟩)
  decide

/-- Of square matrices, the product by transposes is the simple product just when the product is
symmetric. -/
theorem transposeMatMul_square (ha : a.Holds n n f) (hb : b.Holds n n g) (hc : c.Full n n)
    (hn : 8 ∣ n) :
    Matrix.SameContents n n (transposeMatMul a b c) (simpleMatMul a b c) ↔
      ∀ i < n, ∀ j < n, dot f g n j i = dot f g n i j := by
  have hold : ∀ p < n * n, c.data.cell p = some ((c.data.cell p).getD 0) := fun p hp => by
    obtain ⟨v, hv⟩ := Option.isSome_iff_exists.mp (hc.initialized p hp)
    simp [hv]
  rw [sameContents_iff_landed ha hb hc.toSized hold hn hn hn]
  have hshift : ∀ i j : Nat, shift n n i j = 0 := fun i j => by
    rcases Nat.eq_zero_or_pos n with rfl | hpos
    · simp [shift]
    · simp [shift, Nat.div_eq_of_lt (show n - 1 - i < n by omega)]
  simp only [landed, hshift, Nat.sub_zero, Nat.zero_mul, Nat.add_zero, Nat.le_refl, true_and]
  constructor
  · rintro (rfl | h) i hi j hj
    · omega
    · simpa [hj] using h i hi j hj
  · intro h
    refine .inr fun i hi j hj => ?_
    simpa [hj] using h i hi j hj

/-- A matrix with one element off its diagonal, times the identity, comes out transposed. -/
theorem transposeMatMul_transposes :
    ¬Matrix.SameContents 8 8
      (transposeMatMul (.ofFn 8 8 fun y x => if y = 0 ∧ x = 1 then (1 : Int) else 0)
        (.ofFn 8 8 fun y x => if y = x then 1 else 0) (.ofFn 8 8 fun _ _ => 0))
      (simpleMatMul (.ofFn 8 8 fun y x => if y = 0 ∧ x = 1 then (1 : Int) else 0)
        (.ofFn 8 8 fun y x => if y = x then 1 else 0) (.ofFn 8 8 fun _ _ => 0)) := by
  rw [transposeMatMul_square (Matrix.ofFn_holds 8 8 _) (Matrix.ofFn_holds 8 8 _)
    (Matrix.ofFn_holds 8 8 _).full (Nat.dvd_refl 8)]
  decide

end Agreement

end SoftwareDynamics.Interaction

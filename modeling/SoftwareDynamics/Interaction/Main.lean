import SoftwareDynamics.Interaction.MakeMatrix
import Mathlib.Algebra.Field.Rat
import Mathlib.Algebra.Order.Field.Basic
import Mathlib.Algebra.Order.Ring.Rat
import Mathlib.Tactic.Positivity

/-! The measurements that `main` of `interaction.cc` makes one after the other on the same matrices,
as the macros select them, and the checksums that it prints for them. -/

namespace SoftwareDynamics.Interaction

open ProofKit

section Program

/-- The macros that select measurements. -/
inductive Macro
  | SIMPLE
  | SIMPLE_COLUMNWISE
  | JUST_TRANSPOSE
  | JUST_TRANSPOSE_88
  | JUST_TRANSPOSE_88_2
  | TRANSPOSE
  | JUST_BLOCK_REMAP
  | BLOCK_REMAP
  | ALL
  deriving DecidableEq

/-- A line of output, without the seconds taken. -/
inductive Line (α : Type)
  | product (name : String) (sum : α)
  | transposed (sum : α)
  | justBlockRemap

/-- A measurement prints lines, and may store to `c`. -/
abbrev Measurement (α : Type) := Matrix α → Checked (List (Line α) × Matrix α)

variable {α : Type}

/-- `defined MACRO || defined ALL` -/
def selects (defined : Macro → Bool) (m : Macro) : Bool := defined m || defined .ALL

/-- The measurement, if it is selected. -/
def ifDefined (defined : Macro → Bool) (m : Macro) (measurement : Measurement α) : Measurement α :=
  fun c => if selects defined m then measurement c else pure ([], c)

variable [Zero α] [Add α]

/-- A product into `c`, and its checksum. -/
def measureProduct (name : String) (product : Matrix α → Checked (Matrix α)) : Measurement α :=
  fun c => do
    let c ← product c
    let sum ← checksum c
    pure ([.product name sum], c)

/-- A matrix that is transposed twice, a hundred times over. -/
def measureTranspose (transpose : Matrix α → Checked (Matrix α)) : Measurement α := fun c => do
  let lines ← loop 100 (fun _ lines => do
    let cc ← transpose c
    let ccc ← transpose cc
    let sum ← checksum ccc
    pure (lines ++ [.transposed sum])) []
  pure (lines, c)

/-- The assertion stores what it should compare. -/
def measureBlockRemap [DecidableEq α] : Measurement α := fun c => do
  let _cc ← blockRemap c
  let ccc ← blockUnmap c
  let data ← loop (c.width * c.height) (fun i data => do
    let val ← ccc.data.load i
    let data ← data.store i val
    assert (val ≠ 0)
    pure data) c.data
  pure ([.justBlockRemap], { c with data })

variable [Mul α] [DecidableEq α]

/-- The measurements of `main`, in its order. -/
def measure (defined : Macro → Bool) (a b c : Matrix α) : Checked (List (Line α)) := do
  let (simple, c) ← ifDefined defined .SIMPLE
    (measureProduct "SimpleMatMul" (simpleMatMul a b)) c
  let (columnwise, c) ← ifDefined defined .SIMPLE_COLUMNWISE
    (measureProduct "SimpleMatMulColumnwise" (simpleMatMulColumnwise a b)) c
  let (transposed1, c) ← ifDefined defined .JUST_TRANSPOSE (measureTranspose transposed) c
  let (transposed2, c) ← ifDefined defined .JUST_TRANSPOSE_88 (measureTranspose transposed8x8) c
  let (transposed3, c) ← ifDefined defined .JUST_TRANSPOSE_88_2
    (measureTranspose transposed8x8Flipped) c
  let (transpose, c) ← ifDefined defined .TRANSPOSE
    (measureProduct "TransposeMatMul" (transposeMatMul a b)) c
  let (justRemap, c) ← ifDefined defined .JUST_BLOCK_REMAP measureBlockRemap c
  let (remap, _) ← ifDefined defined .BLOCK_REMAP
    (measureProduct "BlockRemapMatMul" (blockRemapMatMul a b)) c
  pure (simple ++ columnwise ++ transposed1 ++ transposed2 ++ transposed3 ++ transpose ++
    justRemap ++ remap)

/-- `main`, without `-v`. -/
def main [One α] [Div α] [NatCast α] (defined : Macro → Bool) : Checked (List (Line α)) := do
  let a ← makeMatrix 1024 1024
  let b ← makeMatrix 1024 1024
  let c ← makeMatrix 1024 1024
  measure defined a b c

end Program

section Arrangement

variable {α : Type} {m : Matrix α} {n : Nat} {e V : Nat → Nat → α}

/-- The same elements, in another order. -/
def Rearranged (n : Nat) (e V : Nat → Nat → α) : Prop :=
  ∃ goto back, Permutes (n * n) goto back ∧
    ∀ i < n * n, e (i / n) (i % n) = V (goto i / n) (goto i % n)

theorem Rearranged.refl (n : Nat) (V : Nat → Nat → α) : Rearranged n V V :=
  ⟨id, id, ⟨fun _ h => h, fun _ h => h, fun _ _ => rfl, fun _ _ => rfl⟩, fun _ _ => rfl⟩

theorem Rearranged.trans {d : Nat → Nat → α} (h : Rearranged n d e) (h' : Rearranged n e V) :
    Rearranged n d V := by
  obtain ⟨goto, back, hp, heq⟩ := h
  obtain ⟨goto', back', hp', heq'⟩ := h'
  refine ⟨fun i => goto' (goto i), fun i => back (back' i), ?_, fun i hi => ?_⟩
  · constructor
    · exact fun i hi => hp'.goto_lt _ (hp.goto_lt i hi)
    · exact fun i hi => hp.back_lt _ (hp'.back_lt i hi)
    · intro i hi
      rw [hp'.back_goto _ (hp.goto_lt i hi), hp.back_goto i hi]
    · intro i hi
      rw [hp.goto_back _ (hp'.back_lt i hi), hp'.goto_back i hi]
  · rw [heq i hi, heq' _ (hp.goto_lt i hi)]

theorem Rearranged.transpose (n : Nat) (V : Nat → Nat → α) :
    Rearranged n (fun y x => V x y) V := by
  refine ⟨_, _, permutes_transpose n n, fun i hi => ?_⟩
  obtain ⟨hy, hx, -⟩ := index_split hi
  rw [index_div hy, index_mod hy]

/-- The elements of a row-major matrix that is read as a block-major one. -/
def misread (n : Nat) (V : Nat → Nat → α) : Nat → Nat → α :=
  fun y x => V (remapIndex n y x / n) (remapIndex n y x % n)

theorem Rearranged.misread (bw : Nat) (V : Nat → Nat → α) :
    Rearranged (kBlockDim * bw) (misread (kBlockDim * bw) V) V := by
  have h := permutes_remap bw bw
  exact ⟨_, _, ⟨h.back_lt, h.goto_lt, h.goto_back, h.back_goto⟩, fun i _ => rfl⟩

/-- A square matrix with these elements, in some order. -/
def Matrix.Arranges (m : Matrix α) (n : Nat) (V : Nat → Nat → α) : Prop :=
  ∃ e, m.Holds n n e ∧ Rearranged n e V

theorem Matrix.Holds.arranges (h : m.Holds n n V) : m.Arranges n V := ⟨V, h, .refl n V⟩

/-- The sum of the elements. -/
def total [Zero α] [Add α] (n : Nat) (V : Nat → Nat → α) : α :=
  sumTo (fun i => V (i / n) (i % n)) (n * n)

theorem Rearranged.total_eq {β : Type} [AddCommMonoid β] {e V : Nat → Nat → β}
    (h : Rearranged n e V) : total n e = total n V := by
  obtain ⟨goto, back, hp, heq⟩ := h
  exact (sumTo_congr heq).trans (hp.sumTo_eq fun i => V (i / n) (i % n))

theorem Matrix.Arranges.checksum_eq {β : Type} [AddCommMonoid β] {m : Matrix β}
    {V : Nat → Nat → β} (h : m.Arranges n V) : checksum m = .ok (total n V) := by
  obtain ⟨e, he, hV⟩ := h
  rw [he.checksum_eq, ← hV.total_eq]
  rfl

theorem Rearranged.forall_iff (h : Rearranged n e V) (P : α → Prop) :
    (∀ i < n * n, P (e (i / n) (i % n))) ↔ ∀ y < n, ∀ x < n, P (V y x) := by
  obtain ⟨goto, back, hp, heq⟩ := h
  constructor
  · intro hP y hy x hx
    have hi := index_lt hy hx
    have hback := hP _ (hp.back_lt _ hi)
    rwa [heq _ (hp.back_lt _ hi), hp.goto_back _ hi, index_div hx, index_mod hx] at hback
  · intro hP i hi
    obtain ⟨hy, hx, -⟩ := index_split (hp.goto_lt i hi)
    rw [heq i hi]
    exact hP _ hy _ hx

end Arrangement

section Measurements

variable {α : Type} [CommRing α] {a b c : Matrix α} {n : Nat} {f g V : Nat → Nat → α}
variable {defined : Macro → Bool}

/-- A line tells the sum of the elements of the product, or of what has been transposed. -/
def Line.Tells (n : Nat) (product held : Nat → Nat → α) : Line α → Prop
  | .product _ sum => sum = total n product
  | .transposed sum => sum = total n held
  | .justBlockRemap => True

/-- What a measurement prints and leaves in `c`: the elements of `V` in some order. -/
structure Measured (n : Nat) (product held V : Nat → Nat → α) (r : List (Line α) × Matrix α) :
    Prop where
  tells : ∀ line ∈ r.1, line.Tells n product held
  arranges : r.2.Arranges n V

theorem measureProduct_yields {name : String} {product : Matrix α → Checked (Matrix α)}
    (held : Nat → Nat → α) (h : Yields (product c) (fun m => m.Arranges n V)) :
    Yields (measureProduct name product c) (Measured n V held V) := by
  refine .bind h fun m hm => ?_
  rw [hm.checksum_eq]
  refine .pure ⟨fun line hline => ?_, hm⟩
  rw [List.mem_singleton.mp hline]
  rfl

theorem measureTranspose_yields {transpose : Matrix α → Checked (Matrix α)}
    (product : Nat → Nat → α)
    (h : ∀ m e, m.Holds n n e → Yields (transpose m) (fun t => Transposes t n n e))
    (hc : c.Arranges n V) : Yields (measureTranspose transpose c) (Measured n product V V) := by
  obtain ⟨e, he, hV⟩ := hc
  refine .bind (Yields.loop (fun _ lines => ∀ line ∈ lines, line.Tells n product V) (by simp)
    fun i lines _ hlines => ?_) fun lines hlines => .pure ⟨hlines, e, he, hV⟩
  refine .bind (h c e he) fun cc hcc => .bind (h cc _ hcc.holds) fun ccc hccc => ?_
  rw [hccc.checksum_eq hcc.holds, hcc.checksum_eq he, (Matrix.Arranges.checksum_eq ⟨e, he, hV⟩)]
  refine .pure fun line hline => ?_
  rcases List.mem_append.mp hline with hline | hline
  · exact hlines line hline
  · rw [List.mem_singleton.mp hline]
    rfl

omit [CommRing α] in
/-- `main` maps the row-major matrix back, instead of the block-major one. -/
theorem blockUnmap_misread {bw : Nat} {e : Nat → Nat → α}
    (hc : c.Holds (kBlockDim * bw) (kBlockDim * bw) e) :
    Yields (blockUnmap c)
      (fun m => m.Holds (kBlockDim * bw) (kBlockDim * bw) (misread (kBlockDim * bw) e)) := by
  refine blockUnmap_yields hc.width_eq hc.height_eq ⟨hc.size_eq, fun i hi => ?_⟩
  have hcell : i < kBlockDim * bw * (kBlockDim * bw) := hc.size_eq ▸ hi
  rw [hc.cell hcell, misread, (remapIndex_rowAt_colAt hcell).2.2]

/-- Of square matrices, the product by transposes comes out transposed. -/
theorem transposeMatMul_arranges (ha : a.Holds n n f) (hb : b.Holds n n g) {e : Nat → Nat → α}
    (hc : c.Holds n n e) (hn : 8 ∣ n) :
    Yields (transposeMatMul a b c) (fun m => m.Arranges n (dot f g n)) := by
  have hold : ∀ p < n * n, c.data.cell p = some (e (p / n) (p % n)) := fun p hp => hc.cell hp
  refine (transposeMatMul_yields ha hb hc.toSized hold hn hn hn (.inl (Nat.le_refl n))).mono
    fun m hm => ?_
  refine ⟨_, hm.congr fun i hi j hj => ?_, .transpose n _⟩
  have hshift : shift n n i j = 0 := by
    rw [shift, Nat.div_eq_of_lt (show n - 1 - i < n by omega), Nat.min_zero]
  rw [landed, hshift, Nat.sub_zero, if_pos hj, Nat.zero_mul, Nat.add_zero]

/-- What a measurement does to a matrix that arranges `V`, if it is selected. -/
theorem ifDefined_yields {m : Macro} {measurement : Measurement α}
    {product held W : Nat → Nat → α} (hc : c.Arranges n V)
    (h : Yields (measurement c) (Measured n product held W)) :
    Yields (ifDefined defined m measurement c)
      (Measured n product held (if selects defined m then W else V)) := by
  unfold ifDefined
  split_ifs
  · exact h
  · exact .pure ⟨by simp, hc⟩

theorem ifDefined_yieldsIff {m : Macro} {measurement : Measurement α} {product held : Nat → Nat → α}
    {C : Prop} (hc : c.Arranges n V)
    (h : YieldsIff (measurement c) C (Measured n product held V)) :
    YieldsIff (ifDefined defined m measurement c) (selects defined m → C)
      (Measured n product held V) := by
  unfold ifDefined
  split_ifs with hon
  · simpa [hon] using h
  · exact .intro (fun _ => .pure ⟨by simp, hc⟩) fun _ _ h => absurd h hon

variable [DecidableEq α]

/-- The loop with the assertion stores another matrix to `c`, and ends where that one has no
zero. -/
theorem copy_yieldsIff {ccc : Matrix α} {e : Nat → Nat → α} (hc : c.Sized n n)
    (hccc : ccc.Holds n n e) :
    YieldsIff (loop (n * n) (fun i data => do
      let val ← ccc.data.load i
      let data ← data.store i val
      assert (val ≠ 0)
      pure data) c.data)
      (∀ i < n * n, e (i / n) (i % n) ≠ 0) (fun data => (Matrix.mk data n n).Holds n n e) := by
  refine .intro (fun hne => ?_) fun data hloop i hi hzero => ?_
  · refine (Yields.fill_loop (T := fun i => e (i / n) (i % n)) (fun i j => j = i)
      fun i data hi hdata => ?_).mono fun data hdata => ?_
    · refine .load_bind (hccc.size_eq ▸ hi) (hccc.cell hi) ?_
      refine .bind (.store (by rwa [hdata, hc.size_eq])
        (Fills.put (T := fun i => e (i / n) (i % n)) rfl)) fun data' hdata' => ?_
      exact .assert_bind (hne i hi) (.pure hdata')
    · exact .of_fills hc.size_eq hdata fun y x hy hx => ⟨_, index_lt hy hx, rfl⟩
  · obtain ⟨u, v, hround⟩ := loop_round hi hloop
    obtain ⟨val, hload, hrest⟩ := Checked.of_bind hround
    obtain ⟨u', -, hrest⟩ := Checked.of_bind hrest
    obtain ⟨_, hassert, -⟩ := Checked.of_bind hrest
    rw [Buf.load_eq (hccc.size_eq ▸ hi) (hccc.cell hi)] at hload
    rw [← Except.ok.inj hload, hzero] at hassert
    simp [assert] at hassert

/-- The assertion holds just where no element is zero, and it only rearranges the elements. -/
theorem measureBlockRemap_yieldsIff (product held : Nat → Nat → α) (hn : 8 ∣ n)
    (hc : c.Arranges n V) :
    YieldsIff (measureBlockRemap c) (∀ y < n, ∀ x < n, V y x ≠ 0) (Measured n product held V) := by
  obtain ⟨bw, hbw⟩ := hn
  obtain rfl : n = kBlockDim * bw := hbw
  obtain ⟨e, he, hV⟩ := hc
  have hmis := (Rearranged.misread bw e).trans hV
  refine .bind (blockRemap_yields he) fun _ _ => .bind (blockUnmap_misread he) fun ccc hccc => ?_
  have hcopy := copy_yieldsIff he.toSized hccc
  rw [hmis.forall_iff (· ≠ 0)] at hcopy
  rw [he.width_eq, he.height_eq]
  refine .bind_yields hcopy fun data hdata => .pure ⟨fun line hline => ?_, _, hdata, hmis⟩
  rw [List.mem_singleton.mp hline]
  trivial

/-- The measurements end without a fault unless one of them maps a matrix with a zero in it to
block-major order.  Each product that is measured has the checksum of `a*b`, and the matrix that is
transposed has it too if a product has been measured before. -/
theorem measure_sums {h : Nat → Nat → α} (ha : a.Holds n n f) (hb : b.Holds n n g)
    (hc : c.Holds n n h) (hn : 8 ∣ n) (defined : Macro → Bool) :
    let product := dot f g n
    let held := if selects defined .SIMPLE || selects defined .SIMPLE_COLUMNWISE then product else h
    YieldsIff (measure defined a b c)
      (selects defined .JUST_BLOCK_REMAP → ∀ y < n, ∀ x < n,
        (if selects defined .TRANSPOSE then product else held) y x ≠ 0)
      (fun lines => ∀ line ∈ lines, line.Tells n product held) := by
  intro product held
  have simple {V} {c : Matrix α} (hc : c.Arranges n V) :
      Yields (simpleMatMul a b c) (fun m => m.Arranges n product) := by
    obtain ⟨e, he, -⟩ := hc
    exact (simpleMatMul_yields ha hb he.toSized).mono fun m hm => hm.arranges
  have columnwise {V} {c : Matrix α} (hc : c.Arranges n V) :
      Yields (simpleMatMulColumnwise a b c) (fun m => m.Arranges n product) := by
    obtain ⟨e, he, -⟩ := hc
    exact (simpleMatMulColumnwise_productIn ha hb he.toSized).mono fun m hm => hm.toHolds.arranges
  have transpose {V} {c : Matrix α} (hc : c.Arranges n V) :
      Yields (transposeMatMul a b c) (fun m => m.Arranges n product) := by
    obtain ⟨e, he, -⟩ := hc
    exact transposeMatMul_arranges ha hb he hn
  have remap {V} {c : Matrix α} (hc : c.Arranges n V) :
      Yields (blockRemapMatMul a b c) (fun m => m.Arranges n product) := by
    obtain ⟨e, he, -⟩ := hc
    obtain ⟨bw, rfl⟩ := hn
    exact (blockRemapMatMul_yields ha hb he.toSized).mono fun m hm => hm.arranges
  have hheld : (if selects defined .SIMPLE_COLUMNWISE then product else
      if selects defined .SIMPLE then product else h) = held := by
    cases hcol : selects defined .SIMPLE_COLUMNWISE <;> cases hsim : selects defined .SIMPLE <;>
      simp [held, hcol, hsim]
  have skips {m : Macro} {r : List (Line α) × Matrix α}
      (hr : Measured n product held (if selects defined m then held else held) r) :
      Measured n product held held r := by rwa [ite_self] at hr
  unfold measure
  refine .bind (ifDefined_yields hc.arranges (measureProduct_yields held (simple hc.arranges))) ?_
  rintro ⟨lines1, c1⟩ ⟨h1, hc1⟩
  refine .bind (ifDefined_yields hc1 (measureProduct_yields held (columnwise hc1))) ?_
  rintro ⟨lines2, c2⟩ ⟨h2, hc2⟩
  rw [hheld] at hc2
  refine .bind (ifDefined_yields hc2 (measureTranspose_yields product
    (fun m e he => transposed_yields he) hc2)) ?_
  rintro ⟨lines3, c3⟩ hr
  obtain ⟨h3, hc3⟩ := skips hr
  refine .bind (ifDefined_yields hc3 (measureTranspose_yields product
    (fun m e he => transposed8x8_transposes he hn hn) hc3)) ?_
  rintro ⟨lines4, c4⟩ hr
  obtain ⟨h4, hc4⟩ := skips hr
  refine .bind (ifDefined_yields hc4 (measureTranspose_yields product
    (fun m e he => transposed8x8Flipped_transposes he hn hn) hc4)) ?_
  rintro ⟨lines5, c5⟩ hr
  obtain ⟨h5, hc5⟩ := skips hr
  refine .bind (ifDefined_yields hc5 (measureProduct_yields held (transpose hc5))) ?_
  rintro ⟨lines6, c6⟩ ⟨h6, hc6⟩
  refine .bind_yields (ifDefined_yieldsIff hc6 (measureBlockRemap_yieldsIff product held hn hc6)) ?_
  rintro ⟨lines7, c7⟩ ⟨h7, hc7⟩
  refine .bind (ifDefined_yields hc7 (measureProduct_yields held (remap hc7))) ?_
  rintro ⟨lines8, c8⟩ ⟨h8, -⟩
  refine .pure fun line hline => ?_
  simp only [List.mem_append] at hline
  rcases hline with ((((((hline | hline) | hline) | hline) | hline) | hline) | hline) | hline
  · exact h1 line hline
  · exact h2 line hline
  · exact h3 line hline
  · exact h4 line hline
  · exact h5 line hline
  · exact h6 line hline
  · exact h7 line hline
  · exact h8 line hline

end Measurements

section Whole

variable {α : Type} [Field α]

/-- The element in row `y` and column `x` of each matrix that `main` makes. -/
def made (y x : Nat) : α := fillValue (y * 1024 + x)

theorem makeMatrix_holds :
    Yields (makeMatrix 1024 1024 : Checked (Matrix α)) (fun m => m.Holds 1024 1024 made) :=
  (makeMatrix_contents rfl).mono fun _ hm =>
    ⟨hm.1, fun _ _ hy hx => hm.2.cell _ (index_lt hy hx)⟩

variable [LinearOrder α] [IsStrictOrderedRing α]

theorem made_pos (y x : Nat) : (0 : α) < made y x := by
  unfold made fillValue
  positivity

theorem sumTo_pos {V : Nat → α} (hV : ∀ i, 0 < V i) {n : Nat} (hn : 0 < n) : 0 < sumTo V n := by
  induction n with
  | zero => omega
  | succ n ih =>
    rw [sumTo]
    rcases Nat.eq_zero_or_pos n with rfl | hpos
    · rw [sumTo, zero_add]
      exact hV 0
    · exact add_pos (ih hpos) (hV n)

/-- With exact arithmetic, `main` ends without a fault if all measurements are selected, and all the
checksums that it prints are those of the product. -/
theorem measure_sums_all :
    Yields (main (α := ℚ) (· = .ALL))
      (fun lines => ∀ line ∈ lines, line.Tells 1024 (dot made made 1024) (dot made made 1024)) := by
  refine .bind makeMatrix_holds fun a ha => .bind makeMatrix_holds fun b hb =>
    .bind makeMatrix_holds fun c hc => ?_
  obtain ⟨hends, hsums⟩ := measure_sums ha hb hc (by decide) (· = .ALL)
  obtain ⟨lines, hlines⟩ := hends.mpr fun _ y _ x _ =>
    (sumTo_pos (fun k => mul_pos (made_pos y k) (made_pos k x)) (by decide)).ne'
  exact ⟨lines, hlines, hsums lines hlines⟩

end Whole

end SoftwareDynamics.Interaction

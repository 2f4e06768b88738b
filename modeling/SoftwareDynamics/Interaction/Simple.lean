import SoftwareDynamics.ProofKit.Checked
import Mathlib.Algebra.Ring.Defs

/-! Matrices in row-major order and the simple product of `interaction.cc`.  The element type
stands for `double`. -/

namespace SoftwareDynamics.Interaction

open ProofKit

/-- A matrix, whose data is stowed in row-major order. -/
structure Matrix (α : Type) where
  data : Buf α
  width : Nat
  height : Nat

/-- A matrix of the given dimensions whose buffer has one cell for each element. -/
structure Matrix.Sized {α : Type} (m : Matrix α) (width height : Nat) : Prop where
  width_eq : m.width = width
  height_eq : m.height = height
  size_eq : m.data.size = width * height

/-- A matrix whose element in row `y` and column `x` is `f y x`. -/
structure Matrix.Holds {α : Type} (m : Matrix α) (width height : Nat) (f : Nat → Nat → α) : Prop
    extends m.Sized width height where
  element : ∀ y x, y < height → x < width → m.data.cell (y * width + x) = some (f y x)

/-- A matrix of the given dimensions with every element initialized. -/
structure Matrix.Full {α : Type} (m : Matrix α) (width height : Nat) : Prop
    extends m.Sized width height where
  initialized : ∀ i < width * height, (m.data.cell i).isSome

/-- A matrix with exactly one store to each cell since its allocation. -/
def Matrix.StoredOnce {α : Type} (m : Matrix α) : Prop := ∀ i < m.data.size, m.data.writes i = 1

theorem index_lt {width height y x : Nat} (hy : y < height) (hx : x < width) :
    y * width + x < width * height := by
  calc y * width + x < y * width + width := by omega
    _ = width * (y + 1) := by rw [Nat.mul_succ, Nat.mul_comm]
    _ ≤ width * height := Nat.mul_le_mul_left width hy

theorem index_div {width y x : Nat} (hx : x < width) : (y * width + x) / width = y := by
  rw [Nat.mul_comm, Nat.mul_add_div (by omega), Nat.div_eq_of_lt hx, Nat.add_zero]

theorem index_mod {width y x : Nat} (hx : x < width) : (y * width + x) % width = x := by
  rw [Nat.mul_comm, Nat.mul_add_mod, Nat.mod_eq_of_lt hx]

theorem index_split {width height i : Nat} (hi : i < width * height) :
    i / width < height ∧ i % width < width ∧ i / width * width + i % width = i := by
  have hw : 0 < width := Nat.pos_of_mul_pos_right (Nat.zero_lt_of_lt hi)
  exact ⟨Nat.div_lt_of_lt_mul hi, Nat.mod_lt i hw, Nat.div_add_mod' i width⟩

namespace Matrix

/-- The matrix whose element in row `y` and column `x` is `f y x`. -/
def ofFn {α : Type} (width height : Nat) (f : Nat → Nat → α) : Matrix α :=
  ⟨⟨width * height, fun i => some (f (i / width) (i % width)), fun _ => 0⟩, width, height⟩

theorem ofFn_holds {α : Type} (width height : Nat) (f : Nat → Nat → α) :
    (ofFn width height f).Holds width height f :=
  ⟨⟨rfl, rfl, rfl⟩, fun y x _ hx => by simp only [ofFn, index_div hx, index_mod hx]⟩

variable {α : Type} {m m' : Matrix α} {width height : Nat} {f : Nat → Nat → α}

theorem Holds.element_lt (h : m.Holds width height f) {y x : Nat} (hy : y < height)
    (hx : x < width) : y * width + x < m.data.size := by
  rw [h.size_eq]
  exact index_lt hy hx

theorem Holds.cell (h : m.Holds width height f) {i : Nat} (hi : i < width * height) :
    m.data.cell i = some (f (i / width) (i % width)) := by
  obtain ⟨hy, hx, hsplit⟩ := index_split hi
  rw [← h.element _ _ hy hx, hsplit]

/-- A full matrix holds some function. -/
theorem Full.exists_holds [Inhabited α] (h : m.Full width height) :
    ∃ f, m.Holds width height f := by
  refine ⟨fun y x => (m.data.cell (y * width + x)).getD default, ⟨h.toSized, fun y x hy hx => ?_⟩⟩
  obtain ⟨v, hv⟩ := Option.isSome_iff_exists.mp (h.initialized _ (index_lt hy hx))
  simp [hv]

theorem Holds.full (h : m.Holds width height f) : m.Full width height :=
  ⟨h.toSized, fun i hi => by rw [h.cell hi]; rfl⟩

/-- A buffer filled as `f` says holds `f`. -/
theorem Holds.of_fills {b b' : Buf α} {S : Nat → Prop} (hsize : b.size = width * height)
    (h : Fills (fun i => f (i / width) (i % width)) S b b')
    (hS : ∀ y x, y < height → x < width → S (y * width + x)) :
    (Matrix.mk b' width height).Holds width height f where
  width_eq := rfl
  height_eq := rfl
  size_eq := h.size.trans hsize
  element y x hy hx := by rw [h.set _ (hS y x hy hx), index_div hx, index_mod hx]

/-- A fresh buffer is stored to once where one store fills each cell. -/
theorem StoredOnce.of_fillsOnce {T : Nat → α} {S : Nat → Prop} {b : Buf α} {n : Nat}
    (h : FillsOnce T S (.alloc n) b) (hS : ∀ i < n, S i) :
    (Matrix.mk b width height).StoredOnce := by
  intro i hi
  have hlt : i < n := Nat.lt_of_lt_of_eq hi h.size
  exact h.once i (hS i hlt)

/-- Two functions that a matrix holds agree on its elements. -/
theorem Holds.unique {g : Nat → Nat → α} (h : m.Holds width height f) (h' : m.Holds width height g)
    {y x : Nat} (hy : y < height) (hx : x < width) : f y x = g y x :=
  Option.some.inj ((h.element y x hy hx).symm.trans (h'.element y x hy hx))

theorem Holds.congr {g : Nat → Nat → α} (h : m.Holds width height f)
    (hfg : ∀ y < height, ∀ x < width, f y x = g y x) : m.Holds width height g :=
  ⟨h.toSized, fun y x hy hx => by rw [h.element y x hy hx, hfg y hy x hx]⟩

/-- Both computations end without a fault, in matrices with the same elements. -/
def SameContents (width height : Nat) (x y : Checked (Matrix α)) : Prop :=
  ∃ f, Yields x (fun m => m.Holds width height f) ∧ Yields y (fun m => m.Holds width height f)

end Matrix

section Product

variable {α : Type} [Zero α] [Add α] [Mul α]

/-- `f 0 + ... + f (n - 1)`, added up from the left and from zero. -/
def sumTo (f : Nat → α) : Nat → α
  | 0 => 0
  | n + 1 => sumTo f n + f n

/-- The inner product of row `row` of `a` and column `col` of `b`, each of length `n`. -/
def dot (a b : Nat → Nat → α) (n row col : Nat) : α := sumTo (fun k => a row k * b k col) n

/-- `c = a*b` -/
def simpleMatMul (a b c : Matrix α) : Checked (Matrix α) := do
  assert (a.width = b.height)
  assert (a.height = c.height)
  assert (b.width = c.width)
  let data ← loop a.height (fun row data =>
    loop b.width (fun col data => do
      let sum ← loop a.width (fun k sum => do
        let x ← a.data.load (row * a.width + k)
        let y ← b.data.load (k * b.width + col)
        pure (sum + x * y)) 0
      data.store (row * c.width + col) sum) data) c.data
  pure { c with data }

/-- The inner loop of every product: the loads that `x` and `y` make yield the row and the
column, whose inner product the loop adds up. -/
theorem yields_dot {f g : Nat → Nat → α} {n row col : Nat} {x y : Nat → Checked α}
    (hx : ∀ k < n, x k = .ok (f row k)) (hy : ∀ k < n, y k = .ok (g k col)) :
    Yields (loop n (fun k sum => do pure (sum + (← x k) * (← y k))) 0)
      (fun sum => sum = dot f g n row col) := by
  refine Yields.loop (fun k sum => sum = dot f g k row col) rfl ?_
  rintro k _ hk rfl
  rw [hx k hk, hy k hk]
  exact .pure rfl

variable {a b c : Matrix α} {f g : Nat → Nat → α} {n width height : Nat}

/-- The product of `f` and `g` in the buffer of `c`, by one store to each of its cells. -/
structure ProductIn (c m : Matrix α) (width height n : Nat) (f g : Nat → Nat → α) : Prop
    extends m.Holds width height (dot f g n) where
  once : ∀ i < width * height, m.data.writes i = c.data.writes i + 1
  spared : ∀ i, width * height ≤ i →
    m.data.cell i = c.data.cell i ∧ m.data.writes i = c.data.writes i

theorem ProductIn.of_fillsOnce {data : Buf α} {S : Nat → Prop} (hc : c.Sized width height)
    (h : FillsOnce (fun i => dot f g n (i / width) (i % width)) S c.data data)
    (hS : ∀ i, S i ↔ i < width * height) : ProductIn c { c with data } width height n f g where
  width_eq := hc.width_eq
  height_eq := hc.height_eq
  size_eq := h.size.trans hc.size_eq
  element y x hy hx := by
    rw [h.set _ ((hS _).mpr (index_lt hy hx)), index_div hx, index_mod hx]
  once i hi := h.once i ((hS i).mpr hi)
  spared i hi := by
    have hnot : ¬S i := mt (hS i).mp (Nat.not_lt.mpr hi)
    exact ⟨h.keep i hnot, h.spared i hnot⟩

/-- The body of both loops, which stores one element of the product. -/
theorem yields_element (ha : a.Holds n height f) (hb : b.Holds width n g) {row col : Nat}
    (hrow : row < height) (hcol : col < width) {data : Buf α} (hsize : data.size = width * height) :
    Yields (do
      let sum ← loop n (fun k sum => do
        let x ← a.data.load (row * n + k)
        let y ← b.data.load (k * width + col)
        pure (sum + x * y)) 0
      data.store (row * width + col) sum)
      (FillsOnce (fun i => dot f g n (i / width) (i % width)) (fun i => i = row * width + col)
        data) := by
  refine .bind (yields_dot (fun k hk => Buf.load_eq (ha.element_lt hrow hk)
      (ha.element row k hrow hk)) fun k hk => Buf.load_eq (hb.element_lt hk hcol)
      (hb.element k col hk hcol)) ?_
  rintro sum rfl
  refine .store ?_ (.put ?_)
  · rw [hsize]
    exact index_lt hrow hcol
  · rw [index_div hcol, index_mod hcol]

theorem simpleMatMul_productIn (ha : a.Holds n height f) (hb : b.Holds width n g)
    (hc : c.Sized width height) :
    Yields (simpleMatMul a b c) (fun m => ProductIn c m width height n f g) := by
  obtain ⟨data, cw, ch⟩ := c
  have ⟨hcw, hch, hsize⟩ := hc
  simp only at hcw hch hsize
  subst cw ch
  unfold simpleMatMul
  rw [ha.width_eq, ha.height_eq, hb.width_eq]
  refine .assert_bind hb.height_eq.symm (.assert_bind rfl (.assert_bind rfl ?_))
  refine .bind (Yields.fillOnce_loop (T := fun i => dot f g n (i / width) (i % width))
    (fun row i => ∃ col < width, i = row * width + col) (· / width) ?_ fun row d hrow hd => ?_) ?_
  · rintro row - _ ⟨col, hcol, rfl⟩
    exact index_div hcol
  · refine Yields.fillOnce_loop (fun col i => i = row * width + col) (· % width) ?_
      fun col d' hcol hd' => ?_
    · rintro col hcol _ rfl
      exact index_mod hcol
    · exact yields_element ha hb hrow hcol (hd'.trans (hd.trans hsize))
  · intro d hd
    refine .pure (.of_fillsOnce hc hd fun i => ?_)
    constructor
    · rintro ⟨row, hrow, col, hcol, rfl⟩
      exact index_lt hrow hcol
    · intro hi
      obtain ⟨hrow, hcol, hsplit⟩ := index_split hi
      exact ⟨_, hrow, _, hcol, hsplit.symm⟩

/-- The simple product of matrices that hold `f` and `g` holds their product. -/
theorem simpleMatMul_yields (ha : a.Holds n height f) (hb : b.Holds width n g)
    (hc : c.Sized width height) :
    Yields (simpleMatMul a b c) (fun m => m.Holds width height (dot f g n)) :=
  (simpleMatMul_productIn ha hb hc).mono fun _ h => h.toHolds

end Product

end SoftwareDynamics.Interaction

import SoftwareDynamics.Interaction.Simple
import Mathlib.Algebra.Ring.Int.Defs

/-! The simple product of `interaction.cc`, column by column. -/

namespace SoftwareDynamics.Interaction

open ProofKit

section Product

variable {α : Type} [Zero α] [Add α] [Mul α]

/-- `c = a*b`, whose elements are stored column by column. -/
def simpleMatMulColumnwise (a b c : Matrix α) : Checked (Matrix α) := do
  assert (a.width = b.height)
  assert (a.height = c.height)
  assert (b.width = c.width)
  let data ← loop b.width (fun col data =>
    loop a.height (fun row data => do
      let sum ← loop a.width (fun k sum => do
        let x ← a.data.load (row * a.width + k)
        let y ← b.data.load (k * b.width + col)
        pure (sum + x * y)) 0
      data.store (row * c.width + col) sum) data) c.data
  pure { c with data }

variable {a b c : Matrix α} {f g : Nat → Nat → α} {n width height : Nat}

theorem simpleMatMulColumnwise_productIn (ha : a.Holds n height f) (hb : b.Holds width n g)
    (hc : c.Sized width height) :
    Yields (simpleMatMulColumnwise a b c) (fun m => ProductIn c m width height n f g) := by
  obtain ⟨data, cw, ch⟩ := c
  have ⟨hcw, hch, hsize⟩ := hc
  simp only at hcw hch hsize
  subst cw ch
  unfold simpleMatMulColumnwise
  rw [ha.width_eq, ha.height_eq, hb.width_eq]
  refine .assert_bind hb.height_eq.symm (.assert_bind rfl (.assert_bind rfl ?_))
  refine .bind (Yields.fillOnce_loop (T := fun i => dot f g n (i / width) (i % width))
    (fun col i => ∃ row < height, i = row * width + col) (· % width) ?_ fun col d hcol hd => ?_) ?_
  · rintro col hcol _ ⟨row, -, rfl⟩
    exact index_mod hcol
  · refine Yields.fillOnce_loop (fun row i => i = row * width + col) (· / width) ?_
      fun row d' hrow hd' => ?_
    · rintro row - _ rfl
      exact index_div hcol
    · exact yields_element ha hb hrow hcol (hd'.trans (hd.trans hsize))
  · intro d hd
    refine .pure (.of_fillsOnce hc hd fun i => ?_)
    constructor
    · rintro ⟨col, hcol, row, hrow, rfl⟩
      exact index_lt hrow hcol
    · intro hi
      obtain ⟨hrow, hcol, hsplit⟩ := index_split hi
      exact ⟨_, hcol, _, hrow, hsplit.symm⟩

theorem ProductIn.cell_eq {m m' : Matrix α} (h : ProductIn c m width height n f g)
    (h' : ProductIn c m' width height n f g) (i : Nat) : m'.data.cell i = m.data.cell i := by
  by_cases hi : i < width * height
  · rw [h.cell hi, h'.cell hi]
  · rw [(h.spared i (Nat.not_lt.mp hi)).1, (h'.spared i (Nat.not_lt.mp hi)).1]

/-- Neither product faults, both leave the same elements, and each of them stores each element
once. -/
theorem simpleMatMulColumnwise_eq (ha : a.Holds n height f) (hb : b.Holds width n g)
    (hc : c.Sized width height) :
    ∃ m m', simpleMatMul a b c = .ok m ∧ simpleMatMulColumnwise a b c = .ok m' ∧
      (∀ i, m'.data.cell i = m.data.cell i) ∧
      (∀ i < width * height, (m'.data.cell i).isSome ∧
        m'.data.writes i = c.data.writes i + 1) ∧
      m'.Sized width height := by
  obtain ⟨m, hm, hin⟩ := simpleMatMul_productIn ha hb hc
  obtain ⟨m', hm', hin'⟩ := simpleMatMulColumnwise_productIn ha hb hc
  refine ⟨m, m', hm, hm', hin.cell_eq hin', fun i hi => ?_, hin'.toSized⟩
  exact ⟨hin'.full.initialized i hi, hin'.once i hi⟩

theorem simpleMatMulColumnwise_eq_small :
    ∃ m m', simpleMatMul (.ofFn 2 3 fun y x => (y + x : Int)) (.ofFn 1 2 fun y x => (y - x : Int))
        (.ofFn 1 3 fun _ _ => 0) = .ok m ∧
      simpleMatMulColumnwise (.ofFn 2 3 fun y x => (y + x : Int))
        (.ofFn 1 2 fun y x => (y - x : Int)) (.ofFn 1 3 fun _ _ => 0) = .ok m' ∧
      (∀ i, m'.data.cell i = m.data.cell i) ∧
      (∀ i < 1 * 3, (m'.data.cell i).isSome ∧ m'.data.writes i = 0 + 1) ∧ m'.Sized 1 3 :=
  simpleMatMulColumnwise_eq (Matrix.ofFn_holds 2 3 _) (Matrix.ofFn_holds 1 2 _)
    (Matrix.ofFn_holds 1 3 _).toSized

end Product

end SoftwareDynamics.Interaction

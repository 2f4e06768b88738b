import SoftwareDynamics.Interaction.Bounds
import SoftwareDynamics.Interaction.Checksum
import SoftwareDynamics.Interaction.Columnwise
import Mathlib.Algebra.Order.Ring.Nat

/-! How `interaction.cc` makes a matrix.  The buffer has one cell for each element, but the loops
that fill it count to 1024 whatever the dimensions. -/

namespace SoftwareDynamics.Interaction

open ProofKit

section Readers

variable {α : Type} [Zero α] [Add α] [Mul α]

/-- Every product of `a` and `b` into `c` reads initialized elements only, and ends in a full
matrix.  The last two are for the shapes for which they stay inside their buffers. -/
structure Multiplied (a b c : Matrix α) (n width height : Nat) : Prop where
  simple : Yields (simpleMatMul a b c) (fun p => p.Full width height)
  columnwise : Yields (simpleMatMulColumnwise a b c) (fun p => p.Full width height)
  transpose : c.Full width height → 8 ∣ n → 8 ∣ width → 8 ∣ height → height ≤ width ∨ width = 0 →
    Yields (transposeMatMul a b c) (fun p => p.Full width height)
  blockRemap : ∀ hb wb kb, Inside hb wb kb → n = kBlockDim * kb → width = kBlockDim * wb →
    height = kBlockDim * hb → Yields (blockRemapMatMul a b c) (fun p => p.Full width height)

/-- A matrix whose elements can all be read, by the checksum and on either side of a product. -/
structure Readable (m : Matrix α) (width height : Nat) : Prop extends m.Full width height where
  checksum_ok : Yields (checksum m) (fun _ => True)
  left : ∀ n b c, b.Full n width → c.Sized n height → Multiplied m b c width n height
  right : ∀ n a c, a.Full height n → c.Sized width n → Multiplied a m c height width n

theorem Multiplied.of_full {a b c : Matrix α} {n width height : Nat} (ha : a.Full n height)
    (hb : b.Full width n) (hc : c.Sized width height) : Multiplied a b c n width height := by
  have : Inhabited α := ⟨0⟩
  obtain ⟨f, hf⟩ := ha.exists_holds
  obtain ⟨g, hg⟩ := hb.exists_holds
  constructor
  · exact (simpleMatMul_productIn hf hg hc).mono fun _ h => h.full
  · exact (simpleMatMulColumnwise_productIn hf hg hc).mono fun _ h => h.full
  · intro hfull hn hw hh hle
    have hold (p : Nat) (hp : p < width * height) :
        c.data.cell p = some ((c.data.cell p).getD 0) := by
      obtain ⟨v, hv⟩ := Option.isSome_iff_exists.mp (hfull.initialized p hp)
      rw [hv, Option.getD_some]
    exact (transposeMatMul_yields hf hg hc hold hn hw hh hle).mono fun _ h => h.full
  · rintro hb' wb kb hinside rfl rfl rfl
    exact hinside.yields ha hb hc

theorem Readable.of_full {m : Matrix α} {width height : Nat} (h : m.Full width height) :
    Readable m width height where
  toFull := h
  checksum_ok := by
    have : Inhabited α := ⟨0⟩
    obtain ⟨f, hf⟩ := h.exists_holds
    exact ⟨_, hf.checksum_eq, trivial⟩
  left _ _ _ hb hc := .of_full h hb hc
  right _ _ _ ha hc := .of_full ha h hc

end Readers

section MakeMatrix

variable {α : Type} [One α] [Add α] [Mul α] [Div α] [NatCast α]

/-- What `MakeMatrix` stores in cell `i`. -/
def fillValue (i : Nat) : α := 1 + (i : α) / (((1024 : Nat) : α) * ((1024 : Nat) : α))

def makeMatrix (width height : Nat) : Checked (Matrix α) := do
  let n := width * height
  let data ← loop 1024 (fun row data =>
    loop 1024 (fun col data =>
      data.store (row * 1024 + col) (fillValue (row * 1024 + col))) data) (.alloc n)
  pure ⟨data, width, height⟩

/-- A matrix with as many elements as the loops have rounds is filled. -/
theorem makeMatrix_contents {width height : Nat} (h : width * height = 1024 * 1024) :
    Yields (makeMatrix width height : Checked (Matrix α)) (fun m =>
      m.Sized width height ∧ Contents m.data (1024 * 1024) fillValue) := by
  unfold makeMatrix
  refine .bind (Yields.fill_loop (T := fillValue) (fun row i => ∃ col < 1024, i = row * 1024 + col)
    fun row d hrow hd => ?_) fun d hd =>
      .pure ⟨⟨rfl, rfl, hd.size⟩, hd.size.trans h, fun i hi => ?_⟩
  · refine Yields.fill_loop (fun col i => i = row * 1024 + col) fun col d' hcol hd' => ?_
    refine .store ?_ (.put rfl)
    rw [hd', hd, Buf.alloc_size, h]
    exact index_lt hrow hcol
  · obtain ⟨hrow, hcol, hsplit⟩ := index_split hi
    exact hd.set i ⟨_, hrow, _, hcol, hsplit.symm⟩

theorem makeMatrix_full {width height : Nat} (h : width * height = 1024 * 1024) :
    Yields (makeMatrix width height : Checked (Matrix α)) (fun m => m.Full width height) :=
  (makeMatrix_contents h).mono fun _ hm =>
    ⟨hm.1, fun i hi => by rw [hm.2.cell i (h ▸ hi)]; rfl⟩

/-- A matrix that was made without a fault has a cell for each round of the loops, and cells past
them stay as they were allocated. -/
theorem of_makeMatrix {width height : Nat} {m : Matrix α} (h : makeMatrix width height = .ok m) :
    1024 * 1024 ≤ width * height ∧ ∀ i, 1024 * 1024 ≤ i → m.data.cell i = none := by
  obtain ⟨data, hloop, hm⟩ := Checked.of_bind h
  cases hm
  have htouch : Touches (fun i => ∃ row < 1024, ∃ col < 1024, i = row * 1024 + col)
      (.alloc (width * height)) data := by
    refine Touches.loop (fun row i => ∃ col < 1024, i = row * 1024 + col) ?_ hloop
    intro row u v _ hrow
    refine Touches.loop (fun col i => i = row * 1024 + col) ?_ hrow
    intro col u v _ hstore
    exact .store hstore
  constructor
  · have hlast := htouch.within (1023 * 1024 + 1023) ⟨1023, by omega, 1023, by omega, rfl⟩
    rw [Buf.alloc_size] at hlast
    omega
  · intro i hi
    refine htouch.keep i ?_
    rintro ⟨row, hrow, col, hcol, rfl⟩
    omega

variable [Zero α]

/-- `MakeMatrix` fills its buffer and stores nothing outside it just when the buffer has as many
cells as a matrix of 1024 by 1024. -/
theorem makeMatrix_readable_iff (width height : Nat) :
    Yields (makeMatrix width height : Checked (Matrix α)) (fun m => Readable m width height) ↔
      width * height = 1024 * 1024 := by
  constructor
  · rintro ⟨m, hm, hread⟩
    obtain ⟨hle, hrest⟩ := of_makeMatrix hm
    by_contra hne
    have hset := hread.initialized (1024 * 1024) (by omega)
    rw [hrest _ (Nat.le_refl _)] at hset
    cases hset
  · intro h
    exact (makeMatrix_full h).mono fun m hm => .of_full hm

/-- A matrix of one element is made by stores past the end of its buffer. -/
theorem makeMatrix_one :
    ¬Yields (makeMatrix 1 1 : Checked (Matrix Int)) (fun m => Readable m 1 1) := by
  rintro ⟨m, hm, -⟩
  have hle := (of_makeMatrix hm).1
  omega

end MakeMatrix

end SoftwareDynamics.Interaction

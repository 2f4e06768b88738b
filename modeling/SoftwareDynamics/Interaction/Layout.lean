import SoftwareDynamics.Interaction.Bounds

/-! What mapping a matrix of `interaction.cc` to block-major order and back leaves of it.  Each of
the two maps swaps the width and the height, as the transposes do, so that the way back counts the
blocks of a row as those of a column. -/

namespace SoftwareDynamics.Interaction

open ProofKit

section RoundTrip

variable {α : Type} {a m : Matrix α} {f : Nat → Nat → α} {width height bw bh : Nat}

/-- What the way back starts from: the blocks of `a` in order, under swapped dimensions. -/
theorem blockRemap_swaps (ha : a.Holds (kBlockDim * bw) (kBlockDim * bh) f) :
    ∃ data, blockRemap a = .ok ⟨data, kBlockDim * bh, kBlockDim * bw⟩ ∧ Blocks data bw bh f := by
  obtain ⟨data, hremap, hdata⟩ := blockRemap_once ha
  exact ⟨data, hremap, .of_fillsOnce hdata⟩

/-- Mapping to block-major order and back ends without a fault in the matrix itself just when the
matrix is square or has no elements. -/
theorem blockUnmap_blockRemap_iff (ha : a.Holds width height f) (hw : 8 ∣ width)
    (hh : 8 ∣ height) :
    Yields (blockRemap a >>= blockUnmap) (fun m => m.Holds width height f) ↔
      width = height ∨ width = 0 ∨ height = 0 := by
  obtain ⟨bw, rfl⟩ := hw
  obtain ⟨bh, rfl⟩ := hh
  obtain ⟨data, hremap, hblocks⟩ := blockRemap_swaps ha
  rw [hremap, Checked.ok_bind]
  constructor
  · rintro ⟨m, hunmap, hm⟩
    by_cases hbw : bw = 0
    · exact .inr (.inl (by omega))
    by_cases hbh : bh = 0
    · exact .inr (.inr (by omega))
    have hsquare := square_of_blockUnmap (by omega) (by omega) hunmap
      ⟨hm.size_eq, hm.full.initialized⟩
    exact .inl (by omega)
  · intro h
    by_cases hne : bh = 0 ∨ bw = 0
    · refine (blockUnmap_empty hne).mono fun m ⟨hm, hzero⟩ => ⟨hm, fun y x hy hx => ?_⟩
      have hcells : 8 * bw * (8 * bh) = 0 := hm.size_eq.symm.trans hzero
      have hlt := index_lt hy hx
      omega
    · obtain rfl : bw = bh := by omega
      exact blockUnmap_yields rfl rfl ⟨hblocks.size, hblocks.element⟩

theorem blockUnmap_blockRemap_sixteen :
    Yields (blockRemap (.ofFn 16 16 fun y x => (y * 16 + x : Int)) >>= blockUnmap)
      (fun m => m.Holds 16 16 fun y x => (y * 16 + x : Int)) :=
  (blockUnmap_blockRemap_iff (Matrix.ofFn_holds 16 16 _) (by decide) (by decide)).mpr (.inl rfl)

/-- A wide matrix does not come back: its last row is stored past the end of the buffer. -/
theorem blockUnmap_blockRemap_wide :
    ¬Yields (blockRemap (.ofFn 16 8 fun y x => (y * 16 + x : Int)) >>= blockUnmap)
      (fun m => m.Holds 16 8 fun y x => (y * 16 + x : Int)) := by
  rintro ⟨m, hunmap, hm⟩
  have ha := Matrix.ofFn_holds (kBlockDim * 2) (kBlockDim * 1) fun y x => (y * 16 + x : Int)
  obtain ⟨data, hremap, -⟩ := blockRemap_swaps ha
  change blockRemap (.ofFn (kBlockDim * 2) (kBlockDim * 1) _) >>= blockUnmap = .ok m at hunmap
  rw [hremap, Checked.ok_bind] at hunmap
  have hsquare : 1 = 2 := square_of_blockUnmap (by decide) (by decide) hunmap
    ⟨hm.size_eq, hm.full.initialized⟩
  omega

end RoundTrip

end SoftwareDynamics.Interaction

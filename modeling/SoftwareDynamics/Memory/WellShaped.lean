import SoftwareDynamics.Memory.Chained

/-! The modes of `MakeLongList` in which the elements are at the multiples of the stride: a linear
list, and a scrambled one without the extra bit whose groups of 256 elements are complete. -/

namespace SoftwareDynamics.Memory

open ProofKit

section Mode

/-- The linear mode, or the scrambled one without the extra bit for complete groups. -/
def AtMultiples (makelinear useExtrabit : Bool) (count : Nat) : Prop :=
  makelinear = true ∨ makelinear = false ∧ useExtrabit = false ∧ 256 ∣ count

theorem nextelement_lt_of_mode {makelinear useExtrabit : Bool} {count i : Nat}
    (hmode : AtMultiples makelinear useExtrabit count) (hi : i < count) :
    nextelement makelinear i < count := by
  rcases hmode with rfl | ⟨rfl, -, q, rfl⟩
  · exact hi
  · have hlt := nextelement_lt i
    omega

/-- The numbers of the elements, in the order of the list, are those of all elements. -/
theorem nextelement_perm {makelinear useExtrabit : Bool} {count : Nat}
    (hmode : AtMultiples makelinear useExtrabit count) :
    ((List.range count).map (nextelement makelinear)).Perm (List.range count) := by
  have hnodup : ((List.range count).map (nextelement makelinear)).Nodup :=
    List.nodup_range.map fun _ _ => nextelement_inj
  have hsubset : (List.range count).map (nextelement makelinear) ⊆ List.range count := by
    intro n hn
    obtain ⟨i, hi, rfl⟩ := List.mem_map.mp hn
    exact List.mem_range.mpr (nextelement_lt_of_mode hmode (List.mem_range.mp hi))
  apply (List.subperm_of_subset hnodup hsubset).perm_of_length_le
  rw [List.length_map]

variable {bytesize bytestride : Nat} {makelinear useExtrabit : Bool}

/-- The arguments in these modes.  No product overflows, since no element is behind the last. -/
def LongListArgs.atMultiples (dvd : 8 ∣ bytestride) (pair_le : 16 ≤ bytestride)
    (size_lt : bytesize < 2 ^ 31) (count_pos : 1 ≤ bytesize / bytestride)
    (mode : AtMultiples makelinear useExtrabit (bytesize / bytestride)) : LongListArgs where
  bytesize := bytesize
  bytestride := bytestride
  makelinear := makelinear
  useExtrabit := useExtrabit
  dvd := dvd
  pair_le := pair_le
  stride_le := by
    by_contra hlt
    rw [Nat.div_eq_of_lt (by omega)] at count_pos
    omega
  size_lt := size_lt
  start_lt i hi := by
    have hnext := nextelement_lt_of_mode mode hi
    calc nextelement makelinear i * bytestride ≤ bytesize / bytestride * bytestride :=
          Nat.mul_le_mul_right bytestride (Nat.le_of_lt hnext)
      _ ≤ bytesize := Nat.div_mul_le_self bytesize bytestride
      _ < 2 ^ 31 := size_lt

end Mode

namespace LongListArgs

variable {args : LongListArgs} {buf : Buf Word}

/-- A word that belongs to no element keeps what it held. -/
theorem built_cell_outside {n k : Nat}
    (h : ∀ i < n, k ≠ args.position i / 8 ∧ k ≠ args.position i / 8 + 1) :
    (args.built buf n).cell k = buf.cell k := by
  induction n with
  | zero => rfl
  | succ n ih =>
    obtain ⟨hnext, hdata⟩ := h n (Nat.lt_succ_self n)
    rw [built, putPair_cell, if_neg hdata, if_neg hnext]
    exact ih fun i hi => h i (by omega)

section Positions

variable (hmode : AtMultiples args.makelinear args.useExtrabit args.elementCount)

include hmode

theorem position_of_mode (i : Nat) :
    args.position i = nextelement args.makelinear i * args.bytestride := by
  apply args.position_of_extrabit_zero
  rcases hmode with hlinear | ⟨-, hextra, -⟩
  · simp [extrabit, hlinear]
  · simp [extrabit, hextra]

theorem inside_of_mode {i : Nat} (hi : i < args.elementCount) :
    args.position i + 16 ≤ args.bytesize := by
  rw [position_of_mode hmode, start_inside_iff]
  exact .inl (nextelement_lt_of_mode hmode hi)

theorem apart_of_mode : args.Apart where
  inj i _ j _ heq := by
    rw [position_of_mode hmode, position_of_mode hmode] at heq
    exact nextelement_inj (Nat.eq_of_mul_eq_mul_right (Nat.zero_lt_of_lt args.pair_le) heq)
  data i _ j _ heq := by
    rw [position_of_mode hmode, position_of_mode hmode] at heq
    exact absurd heq.symm (multiple_ne_add args.pair_le _ _)

theorem positions_perm :
    ((List.range args.elementCount).map args.position).Perm
      ((List.range args.elementCount).map (· * args.bytestride)) := by
  have hpositions : (List.range args.elementCount).map args.position =
      ((List.range args.elementCount).map (nextelement args.makelinear)).map
        (· * args.bytestride) := by
    rw [List.map_map]
    exact List.map_congr_left fun i _ => position_of_mode hmode i
  rw [hpositions]
  exact (nextelement_perm hmode).map _

end Positions

end LongListArgs

/-- What a list is in a buffer that held `buf` before: `NULL` comes behind the elements, which are
at the multiples of the stride and whose data is zero, and nothing else has been changed. -/
structure WellShaped (args : LongListArgs) (buf buf' : Buf Word) (first : Word)
    (pairs : List Nat) : Prop where
  visits : Visits (HasNext buf') first pairs
  offsets : pairs.Perm ((List.range args.elementCount).map (· * args.bytestride))
  ordered : args.makelinear = true →
    pairs = (List.range args.elementCount).map (· * args.bytestride)
  zero : ∀ pairptr ∈ pairs, ZeroData buf' pairptr
  outside : ∀ word, (∀ pairptr ∈ pairs, 8 * word + 8 ≤ pairptr ∨ pairptr + 16 ≤ 8 * word) →
    buf'.cell word = buf.cell word

theorem LongListArgs.wellShaped_of_mode {args : LongListArgs} {buf : Buf Word}
    (hsize : buf.size = args.bytesize / 8)
    (hmode : AtMultiples args.makelinear args.useExtrabit args.elementCount) :
    WellShaped args buf (args.built buf args.elementCount) (some 0)
      ((List.range args.elementCount).map args.position) where
  visits := visits_of_apart hsize (fun i => inside_of_mode hmode) (apart_of_mode hmode)
  offsets := positions_perm hmode
  ordered hlinear := by
    apply List.map_congr_left
    intro i _
    rw [position_of_mode hmode, hlinear, nextelement_linear]
  zero pairptr hpair := by
    obtain ⟨i, hi, rfl⟩ := List.mem_map.mp hpair
    exact zeroData_of_apart hsize (fun i => inside_of_mode hmode) (apart_of_mode hmode)
      (List.mem_range.mp hi)
  outside word hword := by
    apply built_cell_outside
    intro i hi
    have hoff := hword _ (List.mem_map_of_mem (List.mem_range.mpr hi))
    have hdvd := args.position_dvd i
    omega

section Results

variable {bytesize bytestride : Nat} {makelinear useExtrabit : Bool}

/-- In a linear list, and in a scrambled one of complete groups without the extra bit, `next` leads
to the elements at all multiples of the stride, each once, and then to `NULL`. -/
theorem makeLongList_wellShaped (dvd : 8 ∣ bytestride) (pair_le : 16 ≤ bytestride)
    (size_lt : bytesize < 2 ^ 31) (count_pos : 1 ≤ bytesize / bytestride)
    (mode : AtMultiples makelinear useExtrabit (bytesize / bytestride)) {buf : Buf Word}
    (hsize : buf.size = bytesize / 8) :
    let args := LongListArgs.atMultiples dvd pair_le size_lt count_pos mode
    ∃ buf' first pairs, makeLongList args buf = .ok (buf', first) ∧
      WellShaped args buf buf' first pairs := by
  intro args
  have hmode : AtMultiples args.makelinear args.useExtrabit args.elementCount := mode
  refine ⟨_, _, _, (makeLongList_ok_iff hsize).mpr ⟨fun i hi => ?_, rfl⟩,
    LongListArgs.wellShaped_of_mode hsize hmode⟩
  exact LongListArgs.inside_of_mode hmode hi

theorem makeLongList_wellShaped_groups :
    let args := @LongListArgs.atMultiples (2 ^ 20) 64 false false (by decide) (by decide)
      (by decide) (by decide) (.inr ⟨rfl, rfl, by decide⟩)
    ∃ buf' first pairs, makeLongList args (.alloc (2 ^ 17)) = .ok (buf', first) ∧
      WellShaped args (.alloc (2 ^ 17)) buf' first pairs :=
  makeLongList_wellShaped (by decide) (by decide) (by decide) (by decide)
    (.inr ⟨rfl, rfl, by decide⟩) rfl

end Results

end SoftwareDynamics.Memory

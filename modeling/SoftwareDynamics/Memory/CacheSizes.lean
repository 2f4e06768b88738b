import SoftwareDynamics.Memory.Scrambled

/-! `MeasureCacheLevelSizes` of `memory.cc`, which reads more and more of one scrambled list.  What
it times is left out. -/

namespace SoftwareDynamics.Memory

open ProofKit

section Program

def minCacheSizeKbLg : Nat := 1

def maxCacheSizeKbLg : Nat := 15

/-- `MeasureSize`, whose four fetches read the same list. -/
def measureSize (lineSizeBytes : Nat) (buf : Buf Word) (rootPair : Word) (cacheSizeKb : Nat) :
    Checked Unit := do
  let linesToRead := cacheSizeKb * 1024 / lineSizeBytes
  let _ ← scrambledReads buf rootPair linesToRead
  let _ ← scrambledReads buf rootPair linesToRead
  let _ ← scrambledReads buf rootPair linesToRead
  let _ ← scrambledReads buf rootPair linesToRead
  return ()

/-- `MeasureCacheLevelSizes`, whose list has strides of two lines. -/
def measureCacheLevelSizes (lineSizeBytes : UInt16) : Checked Unit := do
  let (buf, pairPtr) ← makeScrambledList maxCacheSizeB (lineSizeBytes.toNat * 2) true
    (.alloc (maxCacheSizeB / 8))
  loop (maxCacheSizeKbLg + 1 - minCacheSizeKbLg)
    (fun i _ => measureSize lineSizeBytes.toNat buf pairPtr (1 <<< (minCacheSizeKbLg + i))) ()

end Program

section Lists

theorem nextelement_le (i : Nat) : nextelement false i ≤ i + 255 := by
  have hlt := nextelement_lt i
  omega

variable {line : Nat}

/-- `MakeLongList` is made for strides of two lines whose size is a multiple of 8. -/
theorem callable_line (hdvd : 8 ∣ line) (hpos : 0 < line) (hlt : line < 2 ^ 16) :
    Callable maxCacheSizeB (line * 2) where
  dvd := hdvd.mul_right 2
  pair_le := by
    have hle := Nat.le_of_dvd hpos hdvd
    omega
  stride_le := by
    simp only [maxCacheSizeB]
    omega
  size_lt := maxCacheSizeB_lt
  start_lt i hi := by
    have hmul := Nat.div_mul_le_self maxCacheSizeB (line * 2)
    calc nextelement false i * (line * 2)
        ≤ (maxCacheSizeB / (line * 2) + 255) * (line * 2) :=
          Nat.mul_le_mul_right _ ((nextelement_le i).trans (by omega))
      _ ≤ maxCacheSizeB + 255 * (line * 2) := by
          rw [Nat.add_mul]
          omega
      _ < 2 ^ 31 := by
          simp only [maxCacheSizeB]
          omega

/-- The longest read of `MeasureCacheLevelSizes` ends before its list does. -/
theorem reads_le (hcall : Callable maxCacheSizeB (line * 2)) (hlt : line < 2 ^ 16) {s : Nat}
    (hcut : (scrambledArgs hcall true).CutAt s) {lg : Nat} (hlg : lg ≤ maxCacheSizeKbLg) :
    (2 ^ lg * 1024 / line + 3) / 4 * 4 ≤ (scrambledArgs hcall true).elementCount - s := by
  have hpos : 0 < line := by
    have hpair := hcall.pair_le
    omega
  have hcount : (scrambledArgs hcall true).elementCount = 40 * 1024 * 1024 / line := by
    change maxCacheSizeB / (line * 2) = _
    rw [Nat.mul_comm, ← Nat.div_div_eq_div_mul]
    rfl
  have hpow : 2 ^ lg ≤ 2 ^ 15 := Nat.pow_le_pow_right (by decide) hlg
  have hreads : 2 ^ lg * 1024 / line ≤ 32 * 1024 * 1024 / line :=
    Nat.div_le_div_right (by omega)
  have hsum : 32 * 1024 * 1024 / line + 8 * 1024 * 1024 / line ≤ 40 * 1024 * 1024 / line := by
    have hfirst := Nat.div_mul_le_self (32 * 1024 * 1024) line
    have hsecond := Nat.div_mul_le_self (8 * 1024 * 1024) line
    refine (Nat.le_div_iff_mul_le hpos).mpr ?_
    rw [Nat.add_mul]
    omega
  have hrest : s + 3 ≤ 8 * 1024 * 1024 / line := by
    by_cases hlong : 2 ^ 14 < line * 2
    · obtain rfl := hcut.eq_zero rfl rfl hlong
      exact (Nat.le_div_iff_mul_le hpos).mpr (by omega)
    · have hs := hcut.le rfl rfl
      change s ≤ 256 * (2 ^ 14 / (line * 2) / 256) + 255 at hs
      have hplace : 2 ^ 14 / (line * 2) = 8 * 1024 / line := by
        rw [Nat.mul_comm, ← Nat.div_div_eq_div_mul]
        rfl
      have hone : 1 ≤ 8 * 1024 / line := (Nat.le_div_iff_mul_le hpos).mpr (by omega)
      have hmul : 1024 * (8 * 1024 / line) ≤ 8 * 1024 * 1024 / line :=
        Nat.mul_div_le_mul_div_assoc 1024 (8 * 1024) line
      omega
  omega

theorem measureSize_ok {n : Nat} {position : Nat → Nat} {buf : Buf Word} {first : Word}
    (hvisits : Visits (HasNext buf) first ((List.range n).map position)) {size : Nat}
    (hle : (size * 1024 / line + 3) / 4 * 4 ≤ n) : measureSize line buf first size = .ok () := by
  obtain ⟨w, hread⟩ := (unrolledLoop_ends_iff hvisits).mpr (by simpa using hle)
  simp only [measureSize, scrambledReads, hread, Checked.ok_bind]
  rfl

/-- For every size of lines that is a multiple of 8, `MeasureCacheLevelSizes` ends if its list stays
in the buffer, as it does where its groups are complete, although the extra bit may cut this list
short. -/
theorem measureCacheLevelSizes_ends_iff {line : UInt16} (hdvd : 8 ∣ line.toNat)
    (hpos : 0 < line.toNat) :
    (measureCacheLevelSizes line = .ok () ↔
      (scrambledArgs (callable_line hdvd hpos line.toNat_lt) true).StaysInside) ∧
      (256 ∣ maxCacheSizeB / (line.toNat * 2) → measureCacheLevelSizes line = .ok ()) := by
  let args := scrambledArgs (callable_line hdvd hpos line.toNat_lt) true
  have hmade : makeScrambledList maxCacheSizeB (line.toNat * 2) true (.alloc (maxCacheSizeB / 8)) =
      makeLongList args (.alloc (maxCacheSizeB / 8)) := makeScrambledList_callable _
  have hdvd16 : 16 ∣ args.bytestride := Nat.mul_dvd_mul hdvd (Nat.dvd_refl 2)
  obtain ⟨s, hcut⟩ := args.exists_cutAt
  have hends : measureCacheLevelSizes line = .ok () ↔
      ∀ i < args.elementCount, args.position i + 16 ≤ args.bytesize := by
    rw [measureCacheLevelSizes, hmade]
    constructor
    · intro h
      obtain ⟨r, hmake, -⟩ := Checked.of_bind h
      exact ((makeLongList_ok_iff rfl).mp hmake).1
    · intro hinside
      have hsize : (Buf.alloc (maxCacheSizeB / 8) : Buf Word).size = maxCacheSizeB / 8 := rfl
      have hmake := (makeLongList_ok_iff hsize).mpr ⟨hinside, rfl⟩
      have hvisits := makeLongList_visits hdvd16 hcut rfl hmake
      rw [hmake, Checked.ok_bind]
      have hround {i : Nat} (hi : i < maxCacheSizeKbLg + 1 - minCacheSizeKbLg) :
          measureSize line.toNat (args.built (.alloc (maxCacheSizeB / 8)) args.elementCount)
            (some 0) (1 <<< (minCacheSizeKbLg + i)) = .ok () := by
        simp only [maxCacheSizeKbLg, minCacheSizeKbLg] at hi
        rw [Nat.one_shiftLeft]
        exact measureSize_ok hvisits (reads_le _ line.toNat_lt hcut
          (by simp only [maxCacheSizeKbLg, minCacheSizeKbLg]; omega))
      obtain ⟨⟨⟩, hloop, -⟩ := Yields.loop (fun _ (_ : Unit) => True) trivial
        fun i _ hi _ => ⟨(), hround hi, trivial⟩
      exact hloop
  constructor
  · rw [hends, LongListArgs.inside_iff_staysInside]
  · intro hgroups
    exact hends.mpr fun i hi =>
      LongListArgs.inside_of_groups rfl rfl hdvd16 (by decide : 2 ^ 15 ∣ maxCacheSizeB) hgroups hi

/-- Lines of 64 bytes. -/
theorem measureCacheLevelSizes_ends : measureCacheLevelSizes 64 = .ok () :=
  (measureCacheLevelSizes_ends_iff (by decide) (by decide)).2 (by decide)

end Lists

end SoftwareDynamics.Memory

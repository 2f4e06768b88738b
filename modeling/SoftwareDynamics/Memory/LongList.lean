import SoftwareDynamics.ProofKit.Checked
import Mathlib.Data.List.Iterate
import Mathlib.Data.List.Nodup
import Mathlib.Data.Nat.Bitwise
import Mathlib.Dynamics.PeriodicPts.Lemmas
import Mathlib.NumberTheory.Divisors

/-! `MakeLongList` of `memory.cc`, which chains pairs through a buffer in a linear or a scrambled
order. -/

namespace SoftwareDynamics.Memory

open ProofKit Function

section Order

def poly8 : UInt8 := 0x1d

/-- `POLYSHIFT8` -/
def polyshift8 (x : UInt8) : UInt8 := (x <<< 1) ^^^ ((x.toInt8 >>> 7).toUInt8 &&& poly8)

def polyinit8 : UInt8 := 0xff

/-- The mixed-up offsets: 0, ff, e3, db, ... 7b, f6, f1. -/
def mixedup : List UInt8 := 0 :: List.iterate polyshift8 polyinit8 255

/-- The number of the element that comes `i`-th in the list. -/
def nextelement (makelinear : Bool) (i : Nat) : Nat :=
  if makelinear then i else (i >>> 8 <<< 8) ||| (mixedup.getD (i &&& 0xff) 0).toNat

theorem mixedup_length : mixedup.length = 256 := by decide +kernel

/-- The register goes through 255 states before it comes back to the first. -/
theorem minimalPeriod_polyshift8 : minimalPeriod polyshift8 polyinit8 = 255 := by
  have hback : IsPeriodicPt polyshift8 255 polyinit8 := by decide +kernel
  have hnot (d : Nat) (hd : d ∈ [15, 51, 85]) : ¬IsPeriodicPt polyshift8 d polyinit8 := by
    simp only [List.mem_cons, List.not_mem_nil, or_false] at hd
    rcases hd with rfl | rfl | rfl <;> decide +kernel
  simp only [isPeriodicPt_iff_minimalPeriod_dvd] at hback hnot
  -- A proper divisor of 255 divides one of the maximal ones.
  have hdivisors : ∀ d ∈ Nat.divisors 255, d = 255 ∨ ∃ m ∈ [15, 51, 85], d ∣ m := by
    decide +kernel
  rcases hdivisors _ (Nat.mem_divisors.mpr ⟨hback, by decide⟩) with h | ⟨m, hm, hdvd⟩
  · exact h
  · exact absurd hdvd (hnot m hm)

theorem mixedup_nodup : mixedup.Nodup := by
  have hback : polyshift8^[255] polyinit8 = polyinit8 := by
    rw [← minimalPeriod_polyshift8]
    exact isPeriodicPt_minimalPeriod polyshift8 polyinit8
  have hzero (n : Nat) : polyshift8^[n] 0 = 0 := iterate_fixed rfl n
  rw [mixedup, ← List.range_map_iterate, List.nodup_cons]
  constructor
  · -- From zero there is no way back to the first state.
    intro hmem
    obtain ⟨i, hi, hstate⟩ := List.mem_map.mp hmem
    have hlt := List.mem_range.mp hi
    rw [← Nat.sub_add_cancel (Nat.le_of_lt hlt), iterate_add_apply, hstate, hzero] at hback
    exact absurd hback (by decide)
  · apply List.Nodup.map_on _ List.nodup_range
    intro i hi j hj heq
    have hinj := @iterate_injOn_Iio_minimalPeriod _ polyshift8 polyinit8
    rw [minimalPeriod_polyshift8] at hinj
    exact hinj (List.mem_range.mp hi) (List.mem_range.mp hj) heq

theorem nextelement_linear (i : Nat) : nextelement true i = i := rfl

theorem nextelement_scrambled (i : Nat) :
    nextelement false i = 256 * (i / 256) + (mixedup.getD (i % 256) 0).toNat := by
  have hmask : i &&& 0xff = i % 256 := Nat.and_two_pow_sub_one_eq_mod i 8
  have hlt : (mixedup.getD (i % 256) 0).toNat < 2 ^ 8 := UInt8.toNat_lt _
  rw [nextelement, if_neg Bool.false_ne_true, hmask, ← Nat.shiftLeft_add_eq_or_of_lt hlt,
    Nat.shiftLeft_eq, Nat.shiftRight_eq_div_pow, Nat.mul_comm]

theorem nextelement_zero (makelinear : Bool) : nextelement makelinear 0 = 0 := by
  cases makelinear <;> decide +kernel

/-- An element stays in its group of 256. -/
theorem nextelement_div (i : Nat) : nextelement false i / 256 = i / 256 := by
  have hlt := UInt8.toNat_lt (mixedup.getD (i % 256) 0)
  rw [nextelement_scrambled]
  omega

theorem nextelement_inj {makelinear : Bool} {i j : Nat}
    (h : nextelement makelinear i = nextelement makelinear j) : i = j := by
  cases makelinear with
  | true => exact h
  | false =>
    have hdiv : i / 256 = j / 256 := by rw [← nextelement_div, h, nextelement_div]
    rw [nextelement_scrambled, nextelement_scrambled, hdiv] at h
    have hi : i % 256 < mixedup.length := by
      rw [mixedup_length]
      omega
    have hj : j % 256 < mixedup.length := by
      rw [mixedup_length]
      omega
    have hget := UInt8.toNat_inj.mp (Nat.add_left_cancel h)
    rw [List.getD_eq_getElem _ _ hi, List.getD_eq_getElem _ _ hj,
      mixedup_nodup.getElem_inj_iff] at hget
    omega

end Order

section Builder

/-- What `MakeLongList` may be called with: a stride that is a multiple of `sizeof(void*)` and at
least `sizeof(Pair)`, at least one element, and no product that an `int` cannot hold. -/
structure LongListArgs where
  bytesize : Nat
  bytestride : Nat
  makelinear : Bool
  useExtrabit : Bool
  dvd : 8 ∣ bytestride
  pair_le : 16 ≤ bytestride
  stride_le : bytestride ≤ bytesize
  size_lt : bytesize < 2 ^ 31
  start_lt : ∀ i < bytesize / bytestride, nextelement makelinear i * bytestride < 2 ^ 31

/-- A word of the buffer: `none` is zero, which is `NULL` as a pointer, and `some o` is the address
of the byte at offset `o` of the buffer. -/
abbrev Word := Option Nat

/-- Sets `next` and `data` of the pair at an offset, which is a multiple of 8. -/
def setPair (buf : Buf Word) (pairptr : Nat) (next : Word) : Checked (Buf Word) := do
  let buf ← buf.store (pairptr / 8) next
  buf.store (pairptr / 8 + 1) none

namespace LongListArgs

variable (args : LongListArgs)

def elementCount : Nat := args.bytesize / args.bytestride

def extrabit : Nat := if args.makelinear || !args.useExtrabit then 0 else 1 <<< 14

/-- Where the element that comes `i`-th is put, unless it is the first. -/
def offset (i : Nat) : Nat := (nextelement args.makelinear i * args.bytestride) ^^^ args.extrabit

end LongListArgs

/-- The body of the loop of `MakeLongList`, over the buffer and `pairptr`. -/
def longListRound (args : LongListArgs) (i : Nat) (s : Buf Word × Nat) :
    Checked (Buf Word × Nat) := do
  let nextptr := args.offset i
  let buf ← setPair s.1 s.2 (some nextptr)
  return (buf, nextptr)

/-- `MakeLongList`, on the words of its buffer.  It returns the address of the first of them. -/
def makeLongList (args : LongListArgs) (buf : Buf Word) : Checked (Buf Word × Word) := do
  -- The loop of the source starts at 1.
  let (buf, pairptr) ← loop (args.elementCount - 1) (fun i => longListRound args (i + 1)) (buf, 0)
  let buf ← setPair buf pairptr none
  return (buf, some 0)

end Builder

section Rounds

/-- The buffer after both stores of `setPair`. -/
def putPair (buf : Buf Word) (pairptr : Nat) (next : Word) : Buf Word :=
  (buf.put (pairptr / 8) next).put (pairptr / 8 + 1) none

theorem setPair_ok_iff {buf buf' : Buf Word} {pairptr : Nat} {next : Word} :
    setPair buf pairptr next = .ok buf' ↔
      pairptr / 8 + 1 < buf.size ∧ buf' = putPair buf pairptr next := by
  constructor
  · intro h
    obtain ⟨buf'', hnext, hdata⟩ := Checked.of_bind h
    obtain ⟨-, rfl⟩ := Buf.store_ok hnext
    exact Buf.store_ok hdata
  · rintro ⟨hlt, rfl⟩
    rw [setPair, Buf.store_eq next (by omega), Checked.ok_bind]
    exact Buf.store_eq none hlt

namespace LongListArgs

variable (args : LongListArgs)

/-- Where the element that comes `i`-th is put. -/
def position (i : Nat) : Nat := if i = 0 then 0 else args.offset i

@[simp] theorem position_zero : args.position 0 = 0 := rfl

theorem position_succ (i : Nat) : args.position (i + 1) = args.offset (i + 1) := rfl

/-- What the element that comes `i`-th points to. -/
def link (i : Nat) : Word :=
  if i + 1 < args.elementCount then some (args.position (i + 1)) else none

theorem mem_link {i o : Nat} :
    o ∈ args.link i ↔ i + 1 < args.elementCount ∧ args.position (i + 1) = o := by
  unfold link
  split
  · next h => simp [h]
  · next h => simp [h]

/-- The buffer after the first `n` elements have been set. -/
def built (buf : Buf Word) : Nat → Buf Word
  | 0 => buf
  | n + 1 => putPair (built buf n) (args.position n) (args.link n)

@[simp] theorem built_size (buf : Buf Word) (n : Nat) : (args.built buf n).size = buf.size := by
  induction n with
  | zero => rfl
  | succ n ih => exact ih

theorem elementCount_pos : 0 < args.elementCount :=
  Nat.div_pos args.stride_le (Nat.zero_lt_of_lt args.pair_le)

theorem extrabit_dvd : 8 ∣ args.extrabit := by
  unfold extrabit
  split
  · exact Nat.dvd_zero 8
  · decide

theorem position_dvd (i : Nat) : 8 ∣ args.position i := by
  unfold position
  split
  · exact Nat.dvd_zero 8
  · have hstart : 8 ∣ nextelement args.makelinear i * args.bytestride := args.dvd.mul_left _
    rw [offset, Nat.dvd_iff_mod_eq_zero, Nat.xor_mod_two_pow (n := 3),
      Nat.mod_eq_zero_of_dvd hstart, Nat.mod_eq_zero_of_dvd args.extrabit_dvd]
    rfl

end LongListArgs

/-- The loop sets one pair each round, if all of them are in the buffer. -/
theorem loop_ok_iff (args : LongListArgs) {buf : Buf Word} {n : Nat} (hn : n < args.elementCount)
    {s : Buf Word × Nat} :
    loop n (fun i => longListRound args (i + 1)) (buf, 0) = .ok s ↔
      (∀ i < n, args.position i / 8 + 1 < buf.size) ∧ s = (args.built buf n, args.position n) := by
  induction n generalizing s with
  | zero =>
    rw [loop_zero, Except.ok.injEq, eq_comm]
    exact ⟨fun h => ⟨nofun, h⟩, fun h => h.2⟩
  | succ n ih =>
    have hlink : args.link n = some (args.offset (n + 1)) := if_pos hn
    rw [loop_succ]
    constructor
    · intro h
      obtain ⟨t, hloop, hbody⟩ := Checked.of_bind h
      obtain ⟨hbefore, rfl⟩ := (ih (by omega)).mp hloop
      obtain ⟨buf', hset, hs⟩ := Checked.of_bind hbody
      obtain ⟨hlt, rfl⟩ := setPair_ok_iff.mp hset
      cases hs
      rw [args.built_size] at hlt
      constructor
      · intro i hi
        rcases Nat.lt_succ_iff_lt_or_eq.mp hi with hi | rfl
        · exact hbefore i hi
        · exact hlt
      · rw [LongListArgs.built, hlink, args.position_succ]
    · rintro ⟨hinside, rfl⟩
      have hlt : args.position n / 8 + 1 < (args.built buf n).size := by
        rw [args.built_size]
        exact hinside n (by omega)
      have hset := setPair_ok_iff.mpr ⟨hlt, Eq.refl (putPair _ _ (args.link n))⟩
      rw [(ih (by omega)).mpr ⟨fun i hi => hinside i (by omega), rfl⟩, Checked.ok_bind,
        longListRound, ← hlink, hset]
      rfl

/-- `MakeLongList` sets one pair after the other, if all of them are in the buffer. -/
theorem makeLongList_ok_iff {args : LongListArgs} {buf : Buf Word}
    (hsize : buf.size = args.bytesize / 8) {r : Buf Word × Word} :
    makeLongList args buf = .ok r ↔
      (∀ i < args.elementCount, args.position i + 16 ≤ args.bytesize) ∧
        r = (args.built buf args.elementCount, some 0) := by
  have hcount := args.elementCount_pos
  obtain ⟨n, hn⟩ : ∃ n, args.elementCount = n + 1 := ⟨args.elementCount - 1, by omega⟩
  have hloop := fun s => @loop_ok_iff args buf n (by omega) s
  have hlink : args.link n = none := if_neg (by omega)
  -- A pair is in the buffer if the second of its words is.
  have hinside (i : Nat) :
      args.position i / 8 + 1 < buf.size ↔ args.position i + 16 ≤ args.bytesize := by
    have hdvd := args.position_dvd i
    omega
  rw [makeLongList, hn, Nat.add_sub_cancel]
  constructor
  · intro h
    obtain ⟨s, hbefore, hlast⟩ := Checked.of_bind h
    obtain ⟨hrounds, rfl⟩ := (hloop s).mp hbefore
    obtain ⟨buf', hset, hr⟩ := Checked.of_bind hlast
    obtain ⟨hlt, rfl⟩ := setPair_ok_iff.mp hset
    cases hr
    rw [args.built_size] at hlt
    constructor
    · intro i hi
      rcases Nat.lt_succ_iff_lt_or_eq.mp hi with hi | rfl
      · exact (hinside i).mp (hrounds i hi)
      · exact (hinside i).mp hlt
    · rw [LongListArgs.built, hlink]
  · rintro ⟨hall, rfl⟩
    have hlt : args.position n / 8 + 1 < (args.built buf n).size := by
      rw [args.built_size]
      exact (hinside n).mpr (hall n (by omega))
    have hset := setPair_ok_iff.mpr ⟨hlt, Eq.refl (putPair _ _ (args.link n))⟩
    rw [(hloop _).mpr ⟨fun i hi => (hinside i).mpr (hall i (by omega)), rfl⟩, Checked.ok_bind]
    dsimp only
    rw [← hlink, hset]
    rfl

end Rounds

end SoftwareDynamics.Memory

import SoftwareDynamics.Memory.InBuffer
import SoftwareDynamics.ProofKit.Chain

/-! The list that `MakeLongList` leaves in its buffer.  It has all its elements if and only if no
pair is put where another one is, and none but the last has its `next` where another one has its
`data`. -/

namespace SoftwareDynamics.Memory

open ProofKit

section Lists

/-- `w` is the `next` of the pair at an offset. -/
def HasNext (buf : Buf Word) (pairptr : Nat) (w : Word) : Prop := buf.load (pairptr / 8) = .ok w

/-- The `data` of the pair at an offset is zero. -/
def ZeroData (buf : Buf Word) (pairptr : Nat) : Prop := buf.load (pairptr / 8 + 1) = .ok none

/-- Following `next` from a pointer visits `count` distinct pairs, whose data is zero, and then
reaches `NULL`. -/
def Chained (buf : Buf Word) (first : Word) (count : Nat) : Prop :=
  ∃ pairs, Visits (HasNext buf) first pairs ∧ pairs.length = count ∧ pairs.Nodup ∧
    ∀ pairptr ∈ pairs, ZeroData buf pairptr

end Lists

/-- A stride is too long for two of its multiples to be one word apart. -/
theorem multiple_ne_add {bytestride : Nat} (hpair : 16 ≤ bytestride) (m n : Nat) :
    n * bytestride ≠ m * bytestride + 8 := by
  intro h
  have hdvd : bytestride ∣ m * bytestride + 8 := ⟨n, by rw [← h, Nat.mul_comm]⟩
  have hle := Nat.le_of_dvd (by decide) ((Nat.dvd_add_right (Nat.dvd_mul_left _ m)).mp hdvd)
  omega

namespace LongListArgs

variable {args : LongListArgs} {buf : Buf Word}

section Words

theorem putPair_cell (buf : Buf Word) (pairptr k : Nat) (next : Word) :
    (putPair buf pairptr next).cell k =
      if k = pairptr / 8 + 1 then some none
      else if k = pairptr / 8 then some next
      else buf.cell k := by
  rw [putPair, Buf.put_cell, Buf.put_cell]

/-- A word of a pair that has been set holds what some pair has put there. -/
theorem built_cell {n k : Nat}
    (h : ∃ i < n, k = args.position i / 8 ∨ k = args.position i / 8 + 1) :
    ∃ i < n, k = args.position i / 8 ∧ (args.built buf n).cell k = some (args.link i) ∨
      k = args.position i / 8 + 1 ∧ (args.built buf n).cell k = some none := by
  induction n with
  | zero =>
    obtain ⟨i, hi, -⟩ := h
    omega
  | succ n ih =>
    have hcell := putPair_cell (args.built buf n) (args.position n) k (args.link n)
    change (args.built buf (n + 1)).cell k = _ at hcell
    by_cases hdata : k = args.position n / 8 + 1
    · rw [if_pos hdata] at hcell
      exact ⟨n, by omega, .inr ⟨hdata, hcell⟩⟩
    · rw [if_neg hdata] at hcell
      by_cases hnext : k = args.position n / 8
      · rw [if_pos hnext] at hcell
        exact ⟨n, by omega, .inl ⟨hnext, hcell⟩⟩
      · rw [if_neg hnext] at hcell
        obtain ⟨i, hi, hk⟩ := h
        have hbefore : i < n := by
          rcases Nat.lt_succ_iff_lt_or_eq.mp hi with hi | rfl
          · exact hi
          · rcases hk with hk | hk <;> contradiction
        obtain ⟨j, hj, hput⟩ := ih ⟨i, hbefore, hk⟩
        rw [← hcell] at hput
        exact ⟨j, by omega, hput⟩

variable (hsize : buf.size = args.bytesize / 8)
  (hinside : ∀ i < args.elementCount, args.position i + 16 ≤ args.bytesize)

include hsize hinside

/-- A word of an element holds the `next` of an element that is put there, or the zero that the
`data` of one is. -/
theorem word_cases {i k : Nat} (hi : i < args.elementCount)
    (hk : 8 * k = args.position i ∨ 8 * k = args.position i + 8) :
    ∃ w, (args.built buf args.elementCount).load k = .ok w ∧
      ((∃ j < args.elementCount, args.position j = 8 * k ∧ w = args.link j) ∨
        w = none ∧ ∃ j < args.elementCount, args.position j + 8 = 8 * k) := by
  have hlt : k < (args.built buf args.elementCount).size := by
    have hpair := hinside i hi
    rw [args.built_size]
    omega
  have hword (j : Nat) : 8 * (args.position j / 8) = args.position j :=
    Nat.mul_div_cancel' (args.position_dvd j)
  have hput : ∃ i < args.elementCount, k = args.position i / 8 ∨ k = args.position i / 8 + 1 :=
    ⟨i, hi, by have := hword i; omega⟩
  obtain ⟨j, hj, ⟨hnext, hcell⟩ | ⟨hdata, hcell⟩⟩ := @built_cell args buf _ _ hput
  · have hsame : args.position j = 8 * k := by rw [hnext, hword]
    exact ⟨_, Buf.load_eq hlt hcell, .inl ⟨j, hj, hsame, rfl⟩⟩
  · have hbehind : args.position j + 8 = 8 * k := by rw [hdata, Nat.mul_succ, hword]
    exact ⟨_, Buf.load_eq hlt hcell, .inr ⟨rfl, j, hj, hbehind⟩⟩

/-- The `next` of an element is its own, or the zero that the `data` of another one is. -/
theorem hasNext_cases {i : Nat} (hi : i < args.elementCount) :
    ∃ w, HasNext (args.built buf args.elementCount) (args.position i) w ∧
      ((∃ j < args.elementCount, args.position j = args.position i ∧ w = args.link j) ∨
        w = none ∧ ∃ j < args.elementCount, args.position j + 8 = args.position i) := by
  have hword : 8 * (args.position i / 8) = args.position i :=
    Nat.mul_div_cancel' (args.position_dvd i)
  have hcases := word_cases hsize hinside hi (.inl hword)
  rwa [hword] at hcases

/-- The `data` of an element is zero, or the `next` of another one. -/
theorem data_cases {i : Nat} (hi : i < args.elementCount) :
    ∃ w, (args.built buf args.elementCount).load (args.position i / 8 + 1) = .ok w ∧
      ((∃ j < args.elementCount, args.position j = args.position i + 8 ∧ w = args.link j) ∨
        w = none) := by
  have hword : 8 * (args.position i / 8 + 1) = args.position i + 8 := by
    rw [Nat.mul_succ, Nat.mul_div_cancel' (args.position_dvd i)]
  obtain ⟨w, hw, hcases⟩ := word_cases hsize hinside hi (.inr hword)
  rw [hword] at hcases
  exact ⟨w, hw, hcases.imp_right And.left⟩

end Words

section Elements

variable (args) in
/-- The elements are put at different places, and only the last one may have its `next` where
another one has its `data`. -/
structure Apart : Prop where
  inj : ∀ i < args.elementCount, ∀ j < args.elementCount,
    args.position i = args.position j → i = j
  data : ∀ i < args.elementCount, ∀ j < args.elementCount,
    args.position i + 8 = args.position j → j + 1 = args.elementCount

variable (hsize : buf.size = args.bytesize / 8)
  (hinside : ∀ i < args.elementCount, args.position i + 16 ≤ args.bytesize)

include hsize hinside

/-- Elements that are apart are visited in their order. -/
theorem visits_of_apart (h : args.Apart) :
    Visits (HasNext (args.built buf args.elementCount)) (some 0)
      ((List.range args.elementCount).map args.position) := by
  obtain ⟨n, hn⟩ : ∃ n, args.elementCount = n + 1 := ⟨args.elementCount - 1, by
    have hcount := args.elementCount_pos
    omega⟩
  have hlink {i : Nat} (hi : i < n) : args.link i = some (args.position (i + 1)) :=
    if_pos (by omega)
  have hlast : args.link n = none := if_neg (by omega)
  have hnext {i : Nat} (hi : i < n) :
      HasNext (args.built buf args.elementCount) (args.position i)
        (some (args.position (i + 1))) := by
    obtain ⟨w, hw, ⟨j, hj, hsame, rfl⟩ | ⟨-, j, hj, hbehind⟩⟩ :=
      hasNext_cases hsize hinside (show i < args.elementCount by omega)
    · obtain rfl := h.inj j hj i (by omega) hsame
      rwa [hlink hi] at hw
    · have := h.data j hj i (by omega) hbehind
      omega
  have hend : HasNext (args.built buf args.elementCount) (args.position n) none := by
    obtain ⟨w, hw, ⟨j, hj, hsame, rfl⟩ | ⟨rfl, -⟩⟩ :=
      hasNext_cases hsize hinside (show n < args.elementCount by omega)
    · obtain rfl := h.inj j hj n (by omega) hsame
      rwa [hlast] at hw
    · exact hw
  rw [hn] at hnext hend ⊢
  exact .of_range (fun i hi => hnext hi) hend

/-- Elements that are apart have zero data. -/
theorem zeroData_of_apart (h : args.Apart) {i : Nat} (hi : i < args.elementCount) :
    ZeroData (args.built buf args.elementCount) (args.position i) := by
  obtain ⟨w, hw, ⟨j, hj, hbehind, rfl⟩ | rfl⟩ := data_cases hsize hinside hi
  · have hlast := h.data i hi j hj hbehind.symm
    have hlink : args.link j = none := if_neg (by omega)
    rwa [hlink] at hw
  · exact hw

/-- Elements that are apart keep their `next` and their `data`. -/
theorem chained_of_apart (h : args.Apart) :
    Chained (args.built buf args.elementCount) (some 0) args.elementCount := by
  refine ⟨_, visits_of_apart hsize hinside h, by simp, ?_, ?_⟩
  · apply List.Nodup.map_on _ List.nodup_range
    intro i hi j hj heq
    exact h.inj i (List.mem_range.mp hi) j (List.mem_range.mp hj) heq
  · intro pairptr hpair
    obtain ⟨i, hi, rfl⟩ := List.mem_map.mp hpair
    exact zeroData_of_apart hsize hinside h (List.mem_range.mp hi)

/-- All pointers lead to places of elements, so a list that is long enough visits each of them. -/
theorem apart_of_chained
    (h : Chained (args.built buf args.elementCount) (some 0) args.elementCount) :
    args.Apart := by
  obtain ⟨pairs, hvisits, hlength, hnodup, hzero⟩ := h
  have hcount := args.elementCount_pos
  have hplaces := hvisits.forall_mem (S := fun o => ∃ i < args.elementCount, args.position i = o)
    (by
      rintro _ ⟨⟩
      exact ⟨0, hcount, rfl⟩)
    (by
      rintro _ w ⟨i, hi, rfl⟩ hnext o ho
      obtain ⟨w', hw, hcases⟩ := hasNext_cases hsize hinside hi
      cases hnext.symm.trans hw
      rcases hcases with ⟨j, -, -, rfl⟩ | ⟨rfl, -⟩
      · exact ⟨j + 1, args.mem_link.mp ho⟩
      · cases ho)
  obtain ⟨hcovers, hinj⟩ := nodup_covers hnodup hlength hplaces
  refine ⟨hinj, fun i hi j hj hbehind => ?_⟩
  by_contra hjn
  -- The `next` of the element before the last is the zero of a visited one.
  have hnull : HasNext (args.built buf args.elementCount) (args.position j) none := by
    have hword : args.position i / 8 + 1 = args.position j / 8 := by omega
    have hdata := hzero _ (hcovers i hi)
    rwa [ZeroData, hword] at hdata
  -- So no element points to the one behind it.
  rcases hvisits.eq_or_exists_next (hcovers (j + 1) (by omega)) with hfirst | ⟨o, ho, hnext⟩
  · have := hinj 0 hcount (j + 1) (by omega) (Option.some.inj hfirst)
    omega
  · obtain ⟨m, hm, rfl⟩ := hplaces o ho
    obtain ⟨w, hw, hcases⟩ := hasNext_cases hsize hinside hm
    cases hnext.symm.trans hw
    rcases hcases with ⟨k, hk, hsame, hlink⟩ | ⟨hnone, -⟩
    · obtain rfl := hinj k hk m hm hsame
      obtain ⟨hlt, hpointed⟩ := args.mem_link.mp hlink.symm
      have := hinj (k + 1) hlt (j + 1) (by omega) hpointed
      obtain rfl : k = j := by omega
      cases hnull.symm.trans hnext
    · cases hnone

/-- What `MakeLongList` makes has all its elements if and only if they are apart. -/
theorem makes_chained_iff_apart :
    (∃ buf' first, makeLongList args buf = .ok (buf', first) ∧
      Chained buf' first args.elementCount) ↔ args.Apart := by
  constructor
  · rintro ⟨buf', first, hmake, h⟩
    obtain ⟨-, hbuilt⟩ := (makeLongList_ok_iff hsize).mp hmake
    cases hbuilt
    exact apart_of_chained hsize hinside h
  · intro h
    exact ⟨_, _, (makeLongList_ok_iff hsize).mpr ⟨hinside, rfl⟩,
      chained_of_apart hsize hinside h⟩

end Elements

section Clashes

variable (args)

/-- Where the element that comes `i`-th would be put in a scrambled list without the extra bit. -/
def start (i : Nat) : Nat := nextelement false i * args.bytestride

/-- No element of a scrambled list with the extra bit gets in the way of another one. -/
structure NoClash : Prop where
  /-- The extra bit puts no element on the first one, -/
  first : ∀ i < args.elementCount, i ≠ 0 → args.start i ≠ 2 ^ 14
  /-- and none but the last on its `data`. -/
  firstData : ∀ i < args.elementCount, i ≠ 0 → args.start i = 2 ^ 14 + 8 →
    i + 1 = args.elementCount
  /-- It puts none but the last on the `data` of one that is moved up, -/
  up : ∀ i < args.elementCount, ∀ j < args.elementCount, j ≠ 0 →
    args.start i % 2 ^ 15 = 2 ^ 14 - 8 → args.start j = args.start i + 2 ^ 15 + 8 →
    j + 1 = args.elementCount
  /-- nor on the `data` of one that is moved down. -/
  down : ∀ i < args.elementCount, ∀ j < args.elementCount, j ≠ 0 →
    args.start i % 2 ^ 15 = 2 ^ 15 - 8 → args.start j + 2 ^ 15 = args.start i + 8 →
    j + 1 = args.elementCount

theorem start_zero : args.start 0 = 0 := by
  rw [start, nextelement_zero, Nat.zero_mul]

theorem start_dvd (i : Nat) : 8 ∣ args.start i := args.dvd.mul_left _

theorem start_inj {i j : Nat} (h : args.start i = args.start j) : i = j :=
  nextelement_inj (Nat.eq_of_mul_eq_mul_right (Nat.zero_lt_of_lt args.pair_le) h)

theorem start_ne_add (i j : Nat) : args.start j ≠ args.start i + 8 :=
  multiple_ne_add args.pair_le _ _

variable {args}
variable (hlinear : args.makelinear = false) (hextra : args.useExtrabit = true)

include hlinear hextra

/-- The extra bit moves an element up in the first half of each 2 ^ 15 bytes, and down in the
second. -/
theorem position_cases {i : Nat} (hi : i ≠ 0) :
    args.start i % 2 ^ 15 < 2 ^ 14 ∧ args.position i = args.start i + 2 ^ 14 ∨
      2 ^ 14 ≤ args.start i % 2 ^ 15 ∧ args.position i + 2 ^ 14 = args.start i := by
  have hbit : args.extrabit = 2 ^ 14 := by simp [extrabit, hlinear, hextra]
  have hposition : args.position i = args.start i ^^^ 2 ^ 14 := by
    rw [args.position_of_extrabit hbit hi, hlinear, start]
  rw [hposition, xor_two_pow, Nat.testBit_eq_decide_div_mod_eq]
  split
  · next h =>
    rw [decide_eq_true_eq] at h
    omega
  · next h =>
    rw [decide_eq_true_eq] at h
    omega

theorem position_inj {i j : Nat} (hi : i ≠ 0) (hj : j ≠ 0) (h : args.position i = args.position j) :
    i = j := by
  apply args.start_inj
  have := position_cases hlinear hextra hi
  have := position_cases hlinear hextra hj
  omega

/-- One element is a word behind another one only if the extra bit moves them in different
directions. -/
theorem position_add_eq_iff {i j : Nat} (hi : i ≠ 0) (hj : j ≠ 0) :
    args.position i + 8 = args.position j ↔
      args.start i % 2 ^ 15 = 2 ^ 14 - 8 ∧ args.start j = args.start i + 2 ^ 15 + 8 ∨
        args.start i % 2 ^ 15 = 2 ^ 15 - 8 ∧ args.start j + 2 ^ 15 = args.start i + 8 := by
  have hdvd := args.start_dvd i
  have hne := args.start_ne_add i j
  have := position_cases hlinear hextra hi
  have := position_cases hlinear hextra hj
  constructor
  · intro h
    omega
  · intro h
    omega

theorem Apart.noClash (h : args.Apart) : args.NoClash := by
  have hcount := args.elementCount_pos
  have hne {i r : Nat} (hr : 0 < r) (hmod : args.start i % 2 ^ 15 = r) : i ≠ 0 := by
    rintro rfl
    rw [args.start_zero] at hmod
    omega
  constructor
  · intro i hi hzero hstart
    have := position_cases hlinear hextra hzero
    have := h.inj i hi 0 hcount (by rw [args.position_zero]; omega)
    contradiction
  · intro i hi hzero hstart
    have := position_cases hlinear hextra hzero
    exact h.data 0 hcount i hi (by rw [args.position_zero]; omega)
  · intro i hi j hj hzero hmod hstart
    have hbehind := position_add_eq_iff hlinear hextra (hne (by decide) hmod) hzero
    exact h.data i hi j hj (hbehind.mpr (.inl ⟨hmod, hstart⟩))
  · intro i hi j hj hzero hmod hstart
    have hbehind := position_add_eq_iff hlinear hextra (hne (by decide) hmod) hzero
    exact h.data i hi j hj (hbehind.mpr (.inr ⟨hmod, hstart⟩))

theorem NoClash.apart (h : args.NoClash) : args.Apart := by
  have hfirst {i : Nat} (hi : i < args.elementCount) (hzero : i ≠ 0) : args.position i ≠ 0 := by
    have := position_cases hlinear hextra hzero
    have := h.first i hi hzero
    omega
  constructor
  · intro i hi j hj heq
    by_cases hizero : i = 0
    · by_cases hjzero : j = 0
      · omega
      · subst hizero
        exact absurd heq.symm (hfirst hj hjzero)
    · by_cases hjzero : j = 0
      · subst hjzero
        exact absurd heq (hfirst hi hizero)
      · exact position_inj hlinear hextra hizero hjzero heq
  · intro i hi j hj hbehind
    have hjzero : j ≠ 0 := by
      rintro rfl
      rw [args.position_zero] at hbehind
      omega
    by_cases hizero : i = 0
    · subst hizero
      have := position_cases hlinear hextra hjzero
      rw [args.position_zero] at hbehind
      exact h.firstData j hj hjzero (by omega)
    · have hmoved := (position_add_eq_iff hlinear hextra hizero hjzero).mp hbehind
      rcases hmoved with ⟨hmod, hstart⟩ | ⟨hmod, hstart⟩
      · exact h.up i hi j hj hjzero hmod hstart
      · exact h.down i hi j hj hjzero hmod hstart

end Clashes

end LongListArgs

/-- A scrambled list with the extra bit, all of whose pairs are in the buffer, has all its elements
if and only if none of them gets in the way of another one. -/
theorem chained_iff_noClash (args : LongListArgs) (hlinear : args.makelinear = false)
    (hextra : args.useExtrabit = true)
    (hinside : ∀ i < args.elementCount, i ≠ 0 → args.offset i + 16 ≤ args.bytesize) {buf : Buf Word}
    (hsize : buf.size = args.bytesize / 8) :
    (∃ buf' first, makeLongList args buf = .ok (buf', first) ∧
      Chained buf' first args.elementCount) ↔ args.NoClash := by
  have hpair : 16 ≤ args.bytesize := Nat.le_trans args.pair_le args.stride_le
  have hpositions : ∀ i < args.elementCount, args.position i + 16 ≤ args.bytesize := by
    intro i hi
    by_cases hzero : i = 0
    · subst hzero
      rwa [args.position_zero, Nat.zero_add]
    · rw [LongListArgs.position, if_neg hzero]
      exact hinside i hi hzero
  rw [LongListArgs.makes_chained_iff_apart hsize hpositions]
  constructor
  · intro h
    exact h.noClash hlinear hextra
  · intro h
    exact h.apart hlinear hextra

theorem chained_group :
    ∃ buf' first, makeLongList groupArgs (Buf.alloc (2 ^ 20)) = .ok (buf', first) ∧
      Chained buf' first 256 := by
  have hstart (i : Nat) : groupArgs.start i = nextelement false i * 2 ^ 15 := rfl
  refine (chained_iff_noClash groupArgs rfl rfl ?_ rfl).mpr ?_
  · intro i hi hzero
    have hinside := groupArgs.inside_iff_staysInside.mpr groupArgs_staysInside i hi
    rwa [LongListArgs.position, if_neg hzero] at hinside
  · constructor
    · intro i _ _ h
      rw [hstart] at h
      omega
    · intro i _ _ h
      rw [hstart] at h
      omega
    · intro i _ j _ _ h
      rw [hstart] at h
      omega
    · intro i _ j _ _ h
      rw [hstart] at h
      omega

/-- The list that `MeasureCacheLevelSizes` makes for lines of 64 bytes. -/
def levelSizesArgs : LongListArgs where
  bytesize := maxCacheSizeB
  bytestride := 64 * 2
  makelinear := false
  useExtrabit := true
  dvd := by decide
  pair_le := by decide
  stride_le := by decide
  size_lt := maxCacheSizeB_lt
  start_lt i hi := by
    have hlt := nextelement_lt i
    simp only [maxCacheSizeB] at hi
    omega

theorem levelSizesArgs_staysInside : levelSizesArgs.StaysInside :=
  show levelSizesArgs.ExtrabitFits by decide

/-- The extra bit puts element 128, which comes 88th, on the first one, so that the list is a
loop. -/
theorem levelSizes_not_chained :
    (∀ i < levelSizesArgs.elementCount, i ≠ 0 →
      levelSizesArgs.offset i + 16 ≤ levelSizesArgs.bytesize) ∧
    ¬∃ buf' first, makeLongList levelSizesArgs (Buf.alloc (maxCacheSizeB / 8)) = .ok (buf', first) ∧
      Chained buf' first levelSizesArgs.elementCount := by
  have hinside := levelSizesArgs.inside_iff_staysInside.mpr levelSizesArgs_staysInside
  constructor
  · intro i hi hzero
    have hpair := hinside i hi
    rwa [LongListArgs.position, if_neg hzero] at hpair
  · intro h
    have hapart := (LongListArgs.makes_chained_iff_apart rfl hinside).mp h
    have hsame : levelSizesArgs.position 88 = levelSizesArgs.position 0 := by decide +kernel
    have := hapart.inj 88 (by decide) 0 (by decide) hsame
    omega

end SoftwareDynamics.Memory

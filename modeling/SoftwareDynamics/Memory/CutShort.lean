import SoftwareDynamics.Memory.Traverse

/-! The lists whose stride is a multiple of `sizeof(Pair)`.  Where the extra bit puts an element on
the first one, the list goes on behind this element, and is cut short. -/

namespace SoftwareDynamics.Memory

open ProofKit

namespace LongListArgs

variable {args : LongListArgs} {buf : Buf Word}

/-- The last element that is put at its place has its `next` there, if no `data` is put on it. -/
theorem built_cell_last {n j : Nat} (hj : j < n)
    (hlast : ∀ i < n, j < i → args.position i ≠ args.position j)
    (hdata : ∀ i < n, args.position i + 8 ≠ args.position j) :
    (args.built buf n).cell (args.position j / 8) = some (args.link j) := by
  induction n with
  | zero => omega
  | succ n ih =>
    have hj8 := args.position_dvd j
    have hn8 := args.position_dvd n
    have hbehind := hdata n (Nat.lt_succ_self n)
    rw [built, putPair_cell, if_neg (by omega)]
    rcases Nat.lt_succ_iff_lt_or_eq.mp hj with hlt | rfl
    · have hne := hlast n (Nat.lt_succ_self n) hlt
      rw [if_neg (by omega)]
      exact ih hlt (fun i hi => hlast i (by omega)) fun i hi => hdata i (by omega)
    · rw [if_pos rfl]

section Cut

variable (args) in
/-- The last element that is put at the place of the first one, which is the first one itself if no
other one is. -/
structure CutAt (s : Nat) : Prop where
  lt : s < args.elementCount
  atFirst : args.position s = 0
  last : ∀ i < args.elementCount, s < i → args.position i ≠ 0

variable (args) in
theorem exists_cutAt : ∃ s, args.CutAt s := by
  have hcount := args.elementCount_pos
  let s := Nat.findGreatest (fun i => args.position i = 0) (args.elementCount - 1)
  have hle : s ≤ args.elementCount - 1 := Nat.findGreatest_le _
  refine ⟨s, by omega, ?_, fun i hi hlt => ?_⟩
  · exact Nat.findGreatest_spec (P := fun i => args.position i = 0) (Nat.zero_le _)
      args.position_zero
  · exact Nat.findGreatest_is_greatest (P := fun i => args.position i = 0) hlt (by omega)

variable (hlinear : args.makelinear = false) (hextra : args.useExtrabit = true)
  (hdvd : 16 ∣ args.bytestride)

include hlinear hextra

/-- The element that is put on the first one is the one whose place the extra bit flips to zero. -/
theorem CutAt.start_eq {s : Nat} (hcut : args.CutAt s) : s = 0 ∨ args.start s = 2 ^ 14 := by
  by_cases hs : s = 0
  · exact .inl hs
  · have hzero := hcut.atFirst
    have := position_cases hlinear hextra hs
    exact .inr (by omega)

/-- The list is cut short by less than the groups of elements before the place of the extra bit. -/
theorem CutAt.le {s : Nat} (hcut : args.CutAt s) :
    s ≤ 256 * (2 ^ 14 / args.bytestride / 256) + 255 := by
  rcases hcut.start_eq hlinear hextra with rfl | hstart
  · exact Nat.zero_le _
  · have hpair := args.pair_le
    have hnext : nextelement false s = 2 ^ 14 / args.bytestride := by
      rw [← hstart, start, Nat.mul_div_cancel _ (by omega)]
    have hgroup := nextelement_div s
    omega

/-- No element is put on the first one where the stride is longer than the extra bit. -/
theorem CutAt.eq_zero {s : Nat} (hcut : args.CutAt s) (hlong : 2 ^ 14 < args.bytestride) :
    s = 0 := by
  rcases hcut.start_eq hlinear hextra with rfl | hstart
  · rfl
  · have hmul : nextelement false s * args.bytestride = 2 ^ 14 := hstart
    rcases Nat.eq_zero_or_pos (nextelement false s) with hzero | hpos
    · rw [hzero, Nat.zero_mul] at hmul
      cases hmul
    · have hle := Nat.le_mul_of_pos_left args.bytestride hpos
      omega

include hdvd

theorem position_dvd_sixteen (i : Nat) : 16 ∣ args.position i := by
  by_cases hi : i = 0
  · subst hi
    exact Nat.dvd_zero 16
  · have hstart : 16 ∣ args.start i := hdvd.mul_left _
    have := position_cases hlinear hextra hi
    omega

/-- The list has the first element, and all elements behind the one that is put on it. -/
theorem visits_of_cutAt {s : Nat} (hcut : args.CutAt s) (hsize : buf.size = args.bytesize / 8)
    (hinside : ∀ i < args.elementCount, args.position i + 16 ≤ args.bytesize) :
    Visits (HasNext (args.built buf args.elementCount)) (some 0)
      ((List.range (args.elementCount - s)).map fun i => args.position (s + i)) := by
  have hnext {j : Nat} (hle : s ≤ j) (hj : j < args.elementCount) :
      HasNext (args.built buf args.elementCount) (args.position j) (args.link j) := by
    refine Buf.load_eq ?_ (built_cell_last hj (fun i hi hlt heq => ?_) fun i hi heq => ?_)
    · have hin := hinside j hj
      have hj8 := args.position_dvd j
      rw [args.built_size]
      omega
    · by_cases hzero : j = 0
      · subst hzero
        obtain rfl : s = 0 := by omega
        exact hcut.last i hi hlt heq
      · exact absurd (position_inj hlinear hextra (by omega) hzero heq) (by omega)
    · have hi16 := position_dvd_sixteen hlinear hextra hdvd i
      have hj16 := position_dvd_sixteen hlinear hextra hdvd j
      omega
  have hlt := hcut.lt
  obtain ⟨n, hn⟩ : ∃ n, args.elementCount - s = n + 1 := ⟨args.elementCount - s - 1, by omega⟩
  have hvisits := @Visits.of_range _ (HasNext (args.built buf args.elementCount))
    (fun i => args.position (s + i)) n (fun i hi => ?_) ?_
  · simpa only [hn, Nat.add_zero, hcut.atFirst] using hvisits
  · have hlink : args.link (s + i) = some (args.position (s + (i + 1))) := if_pos (by omega)
    rw [← hlink]
    exact hnext (Nat.le_add_right s i) (by omega)
  · have hlink : args.link (s + n) = none := if_neg (by omega)
    rw [← hlink]
    exact hnext (Nat.le_add_right s n) (by omega)

end Cut

section Uncut

/-- Without the extra bit, no element is put on another one. -/
theorem apart_of_extrabit_zero (h : args.extrabit = 0) : args.Apart where
  inj i _ j _ heq := by
    rw [args.position_of_extrabit_zero h, args.position_of_extrabit_zero h] at heq
    exact nextelement_inj (Nat.eq_of_mul_eq_mul_right (Nat.zero_lt_of_lt args.pair_le) heq)
  data i _ j _ heq := by
    rw [args.position_of_extrabit_zero h, args.position_of_extrabit_zero h] at heq
    exact absurd heq.symm (multiple_ne_add args.pair_le _ _)

/-- A list without the extra bit is not cut short. -/
theorem CutAt.eq_zero_of_extrabit {s : Nat} (hcut : args.CutAt s) (h : args.extrabit = 0) :
    s = 0 :=
  (apart_of_extrabit_zero h).inj s hcut.lt 0 args.elementCount_pos hcut.atFirst

end Uncut

end LongListArgs

/-- A list of complete groups stays in a buffer of whole double rows. -/
theorem LongListArgs.inside_of_groups {args : LongListArgs} (hlinear : args.makelinear = false)
    (hextra : args.useExtrabit = true) (hdvd : 16 ∣ args.bytestride)
    (hrows : 2 ^ 15 ∣ args.bytesize) (hgroups : 256 ∣ args.elementCount) {i : Nat}
    (hi : i < args.elementCount) : args.position i + 16 ≤ args.bytesize := by
  have hpair := args.pair_le
  by_cases hzero : i = 0
  · subst hzero
    have hle := args.stride_le
    rw [args.position_zero]
    omega
  · have hnext : nextelement false i < args.elementCount :=
      nextelement_lt_of_mode (.inr ⟨rfl, rfl, hgroups⟩) hi
    have hstart : args.start i + 16 ≤ args.bytesize :=
      (args.start_inside_iff _).mpr (.inl hnext)
    have hstart16 : 16 ∣ args.start i := hdvd.mul_left _
    have := position_cases hlinear hextra hzero
    omega

/-- What `MakeLongList` makes of a list, if it stays in its buffer. -/
theorem makeLongList_visits {args : LongListArgs} (hdvd : 16 ∣ args.bytestride) {s : Nat}
    (hcut : args.CutAt s) {buf : Buf Word} (hsize : buf.size = args.bytesize / 8)
    {r : Buf Word × Word} (h : makeLongList args buf = .ok r) :
    Visits (HasNext r.1) r.2
      ((List.range (args.elementCount - s)).map fun i => args.position (s + i)) := by
  obtain ⟨hinside, rfl⟩ := (makeLongList_ok_iff hsize).mp h
  by_cases hextra : args.extrabit = 0
  · obtain rfl := hcut.eq_zero_of_extrabit hextra
    simpa only [Nat.sub_zero, Nat.zero_add] using
      LongListArgs.visits_of_apart hsize hinside (LongListArgs.apart_of_extrabit_zero hextra)
  · obtain ⟨hlinear, hbit⟩ : args.makelinear = false ∧ args.useExtrabit = true := by
      simpa [LongListArgs.extrabit] using hextra
    exact LongListArgs.visits_of_cutAt hlinear hbit hdvd hcut hsize hinside

end SoftwareDynamics.Memory

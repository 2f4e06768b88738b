import SoftwareDynamics.Memory.LongList

/-! The sizes and strides for which `MakeLongList` stays in its buffer.  A scrambled list leaves it
where its last group of 256 elements is not complete, and the extra bit takes elements near the end
of the buffer behind it. -/

namespace SoftwareDynamics.Memory

open ProofKit Function

section Starts

/-- Flipping a bit takes its weight away, or adds it. -/
theorem xor_two_pow (x k : Nat) : x ^^^ 2 ^ k = if x.testBit k then x - 2 ^ k else x + 2 ^ k := by
  have hpos : 0 < 2 ^ k := Nat.two_pow_pos k
  have hbit : x.testBit k = decide (x / 2 ^ k % 2 = 1) := Nat.testBit_eq_decide_div_mod_eq
  have hdiv : (x ^^^ 2 ^ k) / 2 ^ k = x / 2 ^ k ^^^ 1 := by
    rw [Nat.xor_div_two_pow, Nat.div_self hpos]
  have hmod : (x ^^^ 2 ^ k) % 2 ^ k = x % 2 ^ k := by
    rw [Nat.xor_mod_two_pow, Nat.mod_self, Nat.xor_zero]
  have hx := Nat.div_add_mod x (2 ^ k)
  have hxor := Nat.div_add_mod (x ^^^ 2 ^ k) (2 ^ k)
  rw [hdiv, hmod] at hxor
  rw [hbit, ← hxor]
  split
  · next h =>
    have hodd : x / 2 ^ k % 2 = 1 := of_decide_eq_true h
    have hone : 1 ≤ x / 2 ^ k := hodd ▸ Nat.mod_le _ 2
    have hle := Nat.mul_le_mul_left (2 ^ k) hone
    rw [Nat.xor_one_of_odd (Nat.odd_iff.mpr hodd), Nat.mul_sub]
    omega
  · next h =>
    have heven : Even (x / 2 ^ k) := by
      rw [decide_eq_true_eq] at h
      exact Nat.even_iff.mpr (by omega)
    rw [Nat.xor_one_of_even heven, Nat.mul_succ]
    omega

theorem nextelement_lt (i : Nat) : nextelement false i < 256 * (i / 256) + 256 := by
  have hlt := UInt8.toNat_lt (mixedup.getD (i % 256) 0)
  rw [nextelement_scrambled]
  omega

/-- The second element of a group is its last one. -/
theorem nextelement_second (q : Nat) : nextelement false (256 * q + 1) = 256 * q + 255 := by
  have hsecond : mixedup.getD 1 0 = 255 := by decide
  have hdiv : (256 * q + 1) / 256 = q := by omega
  have hmod : (256 * q + 1) % 256 = 1 := by omega
  rw [nextelement_scrambled, hdiv, hmod, hsecond]
  rfl

/-- The first element of a group stays where it is. -/
theorem nextelement_first (q : Nat) : nextelement false (256 * q) = 256 * q := by
  have hfirst : mixedup.getD 0 0 = 0 := rfl
  rw [nextelement_scrambled, Nat.mul_div_cancel_left q (by decide), Nat.mul_mod_right, hfirst]
  rfl

namespace LongListArgs

variable (args : LongListArgs)

/-- Without its extra bit, a pair is in the buffer if it is one of the elements that the buffer has
room for, or fits into what is left behind them. -/
theorem start_inside_iff (n : Nat) :
    n * args.bytestride + 16 ≤ args.bytesize ↔
      n < args.elementCount ∨ n = args.elementCount ∧ 16 ≤ args.bytesize % args.bytestride := by
  have hpair := args.pair_le
  have hrest := Nat.mod_lt args.bytesize (show 0 < args.bytestride by omega)
  have hsize := Nat.div_add_mod' args.bytesize args.bytestride
  change args.elementCount * _ + _ = _ at hsize
  rcases Nat.lt_trichotomy n args.elementCount with h | rfl | h
  · have hle := Nat.mul_le_mul_right args.bytestride h
    rw [Nat.succ_mul] at hle
    omega
  · omega
  · have hle := Nat.mul_le_mul_right args.bytestride h
    rw [Nat.succ_mul] at hle
    omega

theorem position_of_extrabit_zero (h : args.extrabit = 0) (i : Nat) :
    args.position i = nextelement args.makelinear i * args.bytestride := by
  rw [position, offset, h, Nat.xor_zero]
  split
  · next hi => rw [hi, nextelement_zero, Nat.zero_mul]
  · rfl

theorem position_of_extrabit (h : args.extrabit = 2 ^ 14) {i : Nat} (hi : i ≠ 0) :
    args.position i = (nextelement args.makelinear i * args.bytestride) ^^^ 2 ^ 14 := by
  rw [position, if_neg hi, offset, h]

/-- The last group of a scrambled list is complete, has one element, or lacks one element for which
there is room behind the others. -/
def LastGroupFits : Prop :=
  args.elementCount % 256 ≤ 1 ∨
    args.elementCount % 256 = 255 ∧ 16 ≤ args.bytesize % args.bytestride

theorem scrambled_inside_iff :
    (∀ i < args.elementCount, nextelement false i * args.bytestride + 16 ≤ args.bytesize) ↔
      args.LastGroupFits := by
  simp only [start_inside_iff]
  constructor
  · intro h
    by_cases hone : args.elementCount % 256 ≤ 1
    · exact .inl hone
    · have hsecond := h (256 * (args.elementCount / 256) + 1) (by omega)
      rw [nextelement_second] at hsecond
      exact .inr ⟨by omega, by omega⟩
  · intro h i hi
    have hlt := nextelement_lt i
    by_cases hgroup : i / 256 < args.elementCount / 256
    · exact .inl (by omega)
    · rcases h with hone | ⟨hmod, hrest⟩
      · have hfirst := nextelement_first (i / 256)
        rw [show 256 * (i / 256) = i by omega] at hfirst
        exact .inl (hfirst.symm ▸ hi)
      · have hle : nextelement false i < args.elementCount ∨
            nextelement false i = args.elementCount := by omega
        exact hle.imp_right fun heq => ⟨heq, hrest⟩

end LongListArgs

end Starts

section Groups

/-- The places in their group of the first `r` elements of it, as the bits of a number. -/
def occupied (r : Nat) : Nat := (mixedup.take r).foldl (fun m x => m ||| 2 ^ x.toNat) 0

theorem testBit_foldl_or {α : Type} (f : α → Nat) (l : List α) (m v : Nat) :
    (l.foldl (fun m x => m ||| 2 ^ f x) m).testBit v ↔ m.testBit v ∨ ∃ x ∈ l, f x = v := by
  induction l generalizing m with
  | nil => simp
  | cons x l ih => simp [ih, Nat.testBit_two_pow, or_assoc]

/-- A place is occupied by the element that comes `j`-th in its group. -/
theorem occupied_iff {r v : Nat} : (occupied r).testBit v ↔
    ∃ j < r, j < 256 ∧ ∀ q, nextelement false (256 * q + j) = 256 * q + v := by
  have hnext {j : Nat} (hj : j < 256) (q : Nat) :
      nextelement false (256 * q + j) = 256 * q + (mixedup.getD j 0).toNat := by
    rw [nextelement_scrambled, show (256 * q + j) / 256 = q by omega,
      show (256 * q + j) % 256 = j by omega]
  have hlength := mixedup_length
  rw [occupied, testBit_foldl_or, Nat.zero_testBit]
  constructor
  · rintro (h | ⟨x, hx, rfl⟩)
    · cases h
    · obtain ⟨j, hj, rfl⟩ := List.mem_take_iff_getElem.mp hx
      refine ⟨j, by omega, by omega, fun q => ?_⟩
      rw [hnext (by omega), List.getD_eq_getElem _ _ (by omega)]
  · rintro ⟨j, hj, hlt, hall⟩
    have hplace := (hnext hlt 0).symm.trans (hall 0)
    rw [List.getD_eq_getElem _ _ (by omega)] at hplace
    exact .inr ⟨_, List.mem_take_iff_getElem.mpr ⟨j, by omega, rfl⟩, by omega⟩

/-- The whole group. -/
theorem occupied_256 : occupied 256 = 2 ^ 256 - 1 := by decide +kernel

theorem occupied_255 : ∀ v < 256, (occupied 255).testBit v ↔ v ≠ 241 := by decide +kernel

theorem occupied_254 : ∀ v < 256, (occupied 254).testBit v ↔ v ≠ 241 ∧ v ≠ 246 := by
  decide +kernel

/-- The first elements of a group leave only small gaps between them. -/
theorem occupied_two : ∀ a < 256, ∃ d < 2, d ≤ a ∧ (occupied 242).testBit (a - d) := by
  decide +kernel

theorem occupied_four : ∀ a < 256, ∃ d < 4, d ≤ a ∧ (occupied 227).testBit (a - d) := by
  decide +kernel

theorem occupied_28 : ∀ a < 256, ∃ d < 28, d ≤ a ∧ (occupied 27).testBit (a - d) := by
  decide +kernel

theorem occupied_end : ∀ a < 255, 247 ≤ a → (occupied 253).testBit a := by decide +kernel

theorem occupied_mono {r r' v : Nat} (h : r ≤ r') (hv : (occupied r).testBit v) :
    (occupied r').testBit v := by
  obtain ⟨j, hj, hnext⟩ := occupied_iff.mp hv
  exact occupied_iff.mpr ⟨j, by omega, hnext⟩

end Groups

section Extrabit

namespace LongListArgs

variable (args : LongListArgs)

/-- The number of the last group, which is not complete. -/
def lastGroup : Nat := args.elementCount / 256

/-- How many elements the last group has. -/
def groupSize : Nat := args.elementCount % 256

/-- The largest number of an element.  A group has its largest one as soon as it has two. -/
def lastElement : Nat :=
  if args.groupSize ≤ 1 then args.elementCount - 1 else 256 * args.lastGroup + 255

/-- A number that a last group of 254 or 255 elements leaves out. -/
def Lacks (n : Nat) : Prop :=
  254 ≤ args.groupSize ∧
    (n = 256 * args.lastGroup + 241 ∨ args.groupSize = 254 ∧ n = 256 * args.lastGroup + 246)

instance (n : Nat) : Decidable (args.Lacks n) := inferInstanceAs (Decidable (_ ∧ _))

/-- The first number whose place is not before the last `2^14 + 16` bytes of the buffer. -/
def nearStart : Nat := (args.bytesize - (2 ^ 14 + 16)) / args.bytestride + 1

/-- The first element there. -/
def firstNear : Nat := if args.Lacks args.nearStart then args.nearStart + 1 else args.nearStart

/-- The block of `2^14` bytes in which the place of an element is. -/
def block (n : Nat) : Nat := n * args.bytestride / 2 ^ 14

/-- There is no element near the end of the buffer.  Or the last group has at most one element or at
least 254, the first and the last element near the end are in odd blocks, which is the same block
unless the stride is longer than that, and the last one is moved into the buffer. -/
def ExtrabitFits : Prop :=
  args.lastElement < args.firstNear ∨
    (args.groupSize ≤ 1 ∨ 254 ≤ args.groupSize) ∧
    args.block args.firstNear % 2 = 1 ∧ args.block args.lastElement % 2 = 1 ∧
    (args.bytestride ≤ 2 ^ 14 → args.block args.firstNear = args.block args.lastElement) ∧
    args.lastElement * args.bytestride + 16 ≤ args.bytesize + 2 ^ 14

instance : Decidable args.ExtrabitFits := inferInstanceAs (Decidable (_ ∨ _))

/-- `n` is the number of an element other than the first. -/
def IsElement (n : Nat) : Prop := ∃ i < args.elementCount, i ≠ 0 ∧ nextelement false i = n

/-- The place of an element is near the end of the buffer. -/
def Near (n : Nat) : Prop := args.bytesize < n * args.bytestride + 2 ^ 14 + 16

/-- The extra bit moves an element that is near the end of the buffer towards its start, and into
it. -/
def Fits (n : Nat) : Prop :=
  args.block n % 2 = 1 ∧ n * args.bytestride + 16 ≤ args.bytesize + 2 ^ 14

variable {args} {n : Nat}

theorem isElement_iff : args.IsElement n ↔
    n ≠ 0 ∧ (n < 256 * args.lastGroup ∨
      ∃ v, (occupied args.groupSize).testBit v ∧ n = 256 * args.lastGroup + v) := by
  have hcount := Nat.div_add_mod args.elementCount 256
  change 256 * args.lastGroup + args.groupSize = _ at hcount
  constructor
  · rintro ⟨i, hi, hne, rfl⟩
    refine ⟨fun hzero => hne (nextelement_inj (hzero.trans (nextelement_zero false).symm)), ?_⟩
    by_cases hgroup : i < 256 * args.lastGroup
    · have hlt := nextelement_lt i
      exact .inl (by omega)
    · have hi' : 256 * args.lastGroup + (i - 256 * args.lastGroup) = i := by omega
      have hlt := Nat.mod_lt args.elementCount (show 0 < 256 by decide)
      change args.groupSize < 256 at hlt
      obtain ⟨v, hv⟩ : ∃ v, ∀ q, nextelement false (256 * q + (i - 256 * args.lastGroup)) =
          256 * q + v := by
        refine ⟨(mixedup.getD (i - 256 * args.lastGroup) 0).toNat, fun q => ?_⟩
        rw [nextelement_scrambled, Nat.mul_add_div (by decide), Nat.mul_add_mod,
          Nat.div_eq_of_lt (by omega), Nat.mod_eq_of_lt (by omega), Nat.add_zero]
      refine .inr ⟨v, occupied_iff.mpr ⟨_, by omega, by omega, hv⟩, ?_⟩
      rw [← hv, hi']
  · rintro ⟨hne, hn⟩
    obtain ⟨i, hi, rfl⟩ : ∃ i < args.elementCount, nextelement false i = n := by
      rcases hn with hn | ⟨v, hv, rfl⟩
      · have hplace : (occupied 256).testBit (n % 256) := by
          rw [occupied_256, Nat.testBit_two_pow_sub_one]
          exact decide_eq_true (Nat.mod_lt n (by decide))
        obtain ⟨j, hj, -, hnext⟩ := occupied_iff.mp hplace
        exact ⟨256 * (n / 256) + j, by omega, (hnext _).trans (Nat.div_add_mod n 256)⟩
      · obtain ⟨j, hj, -, hnext⟩ := occupied_iff.mp hv
        exact ⟨256 * args.lastGroup + j, by omega, hnext _⟩
    exact ⟨i, hi, fun hzero => hne (by rw [hzero, nextelement_zero]), rfl⟩

theorem lastElement_of_le_one (h : args.groupSize ≤ 1) :
    args.lastElement + 1 = args.elementCount := by
  have hpos := args.elementCount_pos
  rw [lastElement, if_pos h]
  omega

theorem lastElement_of_two_le (h : 2 ≤ args.groupSize) :
    args.lastElement = 256 * args.lastGroup + 255 := if_neg (by omega)

variable (args) in
theorem groups_add : 256 * args.lastGroup + args.groupSize = args.elementCount :=
  Nat.div_add_mod _ _

variable (args) in
theorem groupSize_lt : args.groupSize < 256 := Nat.mod_lt _ (by decide)

theorem occupied_lt {v : Nat} (h : (occupied args.groupSize).testBit v) : v < 256 := by
  have hall := occupied_mono (Nat.le_of_lt args.groupSize_lt) h
  rw [occupied_256, Nat.testBit_two_pow_sub_one] at hall
  exact of_decide_eq_true hall

theorem occupied_iff_not_lacks (h : 254 ≤ args.groupSize) {v : Nat} (hv : v < 256) :
    (occupied args.groupSize).testBit v ↔ ¬args.Lacks (256 * args.lastGroup + v) := by
  have hlt := args.groupSize_lt
  unfold Lacks
  obtain hsize | hsize : args.groupSize = 254 ∨ args.groupSize = 255 := by omega
  · have hplaces := occupied_254 v hv
    rw [hsize, hplaces]
    omega
  · have hplaces := occupied_255 v hv
    rw [hsize, hplaces]
    omega

/-- The elements of a list whose last group has at most one element or nearly all. -/
theorem isElement_iff_le (h : args.groupSize ≤ 1 ∨ 254 ≤ args.groupSize) :
    args.IsElement n ↔ n ≠ 0 ∧ n ≤ args.lastElement ∧ ¬args.Lacks n := by
  have hcount := args.groups_add
  rw [isElement_iff, and_congr_right_iff]
  intro hne
  rcases h with hsize | hsize
  · have hlast := lastElement_of_le_one hsize
    have hzero {v : Nat} (hv : (occupied args.groupSize).testBit v) :
        v = 0 ∧ args.groupSize = 1 := by
      obtain ⟨j, hj, -, hnext⟩ := occupied_iff.mp hv
      obtain rfl : j = 0 := by omega
      have hfirst := hnext 0
      rw [nextelement_zero] at hfirst
      omega
    have hone (hsize : args.groupSize = 1) : (occupied args.groupSize).testBit 0 :=
      occupied_iff.mpr ⟨0, by omega, by decide, nextelement_first⟩
    have hlacks : ¬args.Lacks n := fun h => by have := h.1; omega
    simp only [hlacks, not_false_eq_true, and_true]
    constructor
    · rintro (hn | ⟨v, hv, rfl⟩)
      · omega
      · have hv := hzero hv
        omega
    · intro hn
      by_cases hgroup : n < 256 * args.lastGroup
      · exact .inl hgroup
      · exact .inr ⟨0, hone (by omega), by omega⟩
  · rw [lastElement_of_two_le (by omega)]
    constructor
    · rintro (hn | ⟨v, hv, rfl⟩)
      · refine ⟨by omega, fun hlacks => ?_⟩
        have := hlacks.2
        omega
      · have hlt := occupied_lt hv
        exact ⟨by omega, (occupied_iff_not_lacks hsize hlt).mp hv⟩
    · rintro ⟨hn, hlacks⟩
      by_cases hgroup : n < 256 * args.lastGroup
      · exact .inl hgroup
      · have hsplit : 256 * args.lastGroup + (n - 256 * args.lastGroup) = n := by omega
        refine .inr ⟨n - 256 * args.lastGroup, ?_, by omega⟩
        rw [occupied_iff_not_lacks hsize (by omega), hsplit]
        exact hlacks

theorem nearStart_le_iff (hn : n ≠ 0) : args.Near n ↔ args.nearStart ≤ n := by
  have hpair := args.pair_le
  have hle := Nat.mul_le_mul_right args.bytestride (Nat.one_le_iff_ne_zero.mpr hn)
  rw [nearStart, Nat.succ_le_iff, Nat.div_lt_iff_lt_mul (by omega), Near]
  omega

theorem firstNear_ne_zero : args.firstNear ≠ 0 := by
  unfold firstNear nearStart
  split <;> exact Nat.succ_ne_zero _

/-- Which elements are near the end of the buffer. -/
theorem firstNear_le_iff (hn : n ≠ 0) (hlacks : ¬args.Lacks n) :
    args.Near n ↔ args.firstNear ≤ n := by
  rw [nearStart_le_iff hn, firstNear]
  split
  · next h =>
    have hne : n ≠ args.nearStart := fun heq => hlacks (heq ▸ h)
    omega
  · rfl

theorem not_lacks_firstNear : ¬args.Lacks args.firstNear := by
  unfold firstNear
  split
  · next h =>
    have hstart := h.2
    rintro ⟨-, hnext⟩
    omega
  · assumption

theorem not_lacks_lastElement : ¬args.Lacks args.lastElement := by
  rintro ⟨hsize, hlast⟩
  rw [lastElement_of_two_le (by omega)] at hlast
  omega

theorem block_mono {m : Nat} (h : n ≤ m) : args.block n ≤ args.block m :=
  Nat.div_le_div_right (Nat.mul_le_mul_right _ h)

theorem near_firstNear (args : LongListArgs) : args.Near args.firstNear :=
  (firstNear_le_iff firstNear_ne_zero not_lacks_firstNear).mpr (Nat.le_refl _)

/-- The last number whose place is before `x`. -/
theorem exists_last_before (args : LongListArgs) {x : Nat} (hx : 0 < x) :
    ∃ n, n * args.bytestride < x ∧ x ≤ (n + 1) * args.bytestride := by
  have hpair := args.pair_le
  have hdiv := Nat.div_add_mod' (x - 1) args.bytestride
  have hmod := Nat.mod_lt (x - 1) (show 0 < args.bytestride by omega)
  refine ⟨(x - 1) / args.bytestride, by omega, ?_⟩
  rw [Nat.succ_mul]
  omega

/-- With strides no longer than a block, two elements near the end that are in different odd blocks
have one between them in the even block behind the first of these. -/
theorem exists_between (hgroup : args.groupSize ≤ 1 ∨ 254 ≤ args.groupSize)
    (hstride : args.bytestride ≤ 2 ^ 14) (hfits : args.Fits args.lastElement)
    (hfirst : args.block args.firstNear % 2 = 1)
    (hlt : args.block args.firstNear < args.block args.lastElement) :
    ∃ n, args.IsElement n ∧ args.firstNear ≤ n ∧ args.block n % 2 = 0 := by
  have hpair := args.pair_le
  have hnear := args.near_firstNear
  obtain ⟨hodd, hfits⟩ := hfits
  unfold Near at hnear
  unfold block at hlt hfirst hodd ⊢
  obtain ⟨m, hbefore, hbehind⟩ := args.exists_last_before
    (show 0 < (args.firstNear * args.bytestride / 2 ^ 14 + 1) * 2 ^ 14 by omega)
  rw [Nat.succ_mul m] at hbehind
  have hfar (k : Nat) (hk : args.lastElement ≤ m + k) :
      args.lastElement * args.bytestride ≤ m * args.bytestride + k * args.bytestride := by
    rw [← Nat.add_mul]
    exact Nat.mul_le_mul_right _ hk
  have hfirstLe : args.firstNear ≤ m := by
    by_contra hgt
    have hmul := Nat.mul_le_mul_right args.bytestride (show m + 1 ≤ args.firstNear by omega)
    rw [Nat.succ_mul] at hmul
    omega
  by_cases hlacks : args.Lacks (m + 1)
  · -- The next number is left out, so strides are short, and the one behind it is not left out.
    have hlast : args.lastElement = _ := lastElement_of_two_le (by have := hlacks.1; omega)
    have hnext : ¬args.Lacks (m + 2) := by
      have hm := hlacks.2
      rintro ⟨-, hnext⟩
      omega
    have hmul := Nat.mul_le_mul_right args.bytestride
      (show m + 10 ≤ args.lastElement by have := hlacks.2; omega)
    rw [Nat.add_mul] at hmul
    refine ⟨m + 2, (isElement_iff_le hgroup).mpr ⟨by omega, ?_, hnext⟩, by omega, ?_⟩
    · have := hlacks.2
      omega
    · rw [Nat.add_mul]
      omega
  · refine ⟨m + 1, (isElement_iff_le hgroup).mpr ⟨by omega, ?_, hlacks⟩, by omega, ?_⟩
    · by_contra hgt
      have hle := hfar 0 (by omega)
      omega
    · rw [Nat.succ_mul]
      omega

/-- The list whose last group has at most one element or nearly all. -/
theorem fits_iff_of_group (hgroup : args.groupSize ≤ 1 ∨ 254 ≤ args.groupSize) :
    (∀ n, args.IsElement n → args.Near n → args.Fits n) ↔ args.ExtrabitFits := by
  have hpair := args.pair_le
  constructor
  · intro hall
    by_cases hle : args.firstNear ≤ args.lastElement
    · have hfirst := hall args.firstNear ((isElement_iff_le hgroup).mpr
        ⟨firstNear_ne_zero, hle, not_lacks_firstNear⟩)
        args.near_firstNear
      have hne : args.lastElement ≠ 0 := fun hzero =>
        firstNear_ne_zero (Nat.le_zero.mp (hzero ▸ hle))
      have hlast := hall args.lastElement ((isElement_iff_le hgroup).mpr
        ⟨hne, Nat.le_refl _, not_lacks_lastElement⟩)
        ((firstNear_le_iff hne not_lacks_lastElement).mpr hle)
      refine .inr ⟨hgroup, hfirst.1, hlast.1, fun hstride => ?_, hlast.2⟩
      by_contra hblock
      obtain ⟨n, hn, hge, heven⟩ := exists_between hgroup hstride hlast hfirst.1
        (Nat.lt_of_le_of_ne (block_mono hle) hblock)
      have hlacks := ((isElement_iff_le hgroup).mp hn).2.2
      have hne := ((isElement_iff_le hgroup).mp hn).1
      have hodd := (hall n hn ((firstNear_le_iff hne hlacks).mpr hge)).1
      omega
    · exact .inl (by omega)
  · intro h n hn hnear
    obtain ⟨hne, hle, hlacks⟩ := (isElement_iff_le hgroup).mp hn
    have hge := (firstNear_le_iff hne hlacks).mp hnear
    rcases h with h | ⟨-, hfirst, hlast, hblock, hfits⟩
    · omega
    · have hmul := Nat.mul_le_mul_right args.bytestride hle
      refine ⟨?_, by omega⟩
      by_cases hstride : args.bytestride ≤ 2 ^ 14
      · have hlo : args.block args.firstNear ≤ args.block n := block_mono hge
        have hhi : args.block n ≤ args.block args.lastElement := block_mono hle
        have heq := hblock hstride
        rw [show args.block n = args.block args.lastElement by omega]
        exact hlast
      · -- There is room for two elements only.
        have hstart := args.near_firstNear
        have htwo : args.lastElement < args.firstNear + 2 := by
          by_contra hfar
          have hmul := Nat.mul_le_mul_right args.bytestride (Nat.le_of_not_lt hfar)
          rw [Nat.add_mul] at hmul
          unfold Near at hstart
          omega
        obtain rfl | rfl : n = args.firstNear ∨ n = args.lastElement := by omega
        · exact hfirst
        · exact hlast

/-- The largest element of a last group that lacks more than one comes behind the buffer. -/
theorem bytesize_lt (hle : args.groupSize ≤ 254) :
    args.bytesize + (254 - args.groupSize) * args.bytestride <
      (256 * args.lastGroup + 255) * args.bytestride := by
  have hpair := args.pair_le
  have hcount := args.groups_add
  have hsize := Nat.div_add_mod' args.bytesize args.bytestride
  have hrest := Nat.mod_lt args.bytesize (show 0 < args.bytestride by omega)
  change args.elementCount * _ + _ = _ at hsize
  have hsum : (256 * args.lastGroup + 255) * args.bytestride =
      args.elementCount * args.bytestride + args.bytestride +
        (254 - args.groupSize) * args.bytestride := by
    rw [← Nat.succ_mul, ← Nat.add_mul]
    congr 1
    omega
  omega

/-- If all elements of a last group of two or more fit, its largest one is in an odd block, and the
group cannot lack much. -/
theorem fits_largest (hall : ∀ n, args.IsElement n → args.Near n → args.Fits n)
    (htwo : 2 ≤ args.groupSize) (hle : args.groupSize ≤ 254) :
    args.block (256 * args.lastGroup + 255) % 2 = 1 ∧
      (254 - args.groupSize) * args.bytestride + 17 ≤ 2 ^ 14 := by
  have hlt := bytesize_lt hle
  have helement : args.IsElement (256 * args.lastGroup + 255) :=
    isElement_iff.mpr ⟨by omega, .inr ⟨255, occupied_iff.mpr
      ⟨1, by omega, by decide, nextelement_second⟩, rfl⟩⟩
  obtain ⟨hodd, hfits⟩ := hall _ helement (by unfold Near; omega)
  exact ⟨hodd, by omega⟩

/-- A last group of 2 to 253 elements, all of which fit, and the last number `m` before the block of
the largest one. -/
structure Partial (args : LongListArgs) (m : Nat) : Prop where
  fits : ∀ n, args.IsElement n → args.Near n → args.Fits n
  two_le : 2 ≤ args.groupSize
  le : args.groupSize ≤ 253
  before : m * args.bytestride < args.block (256 * args.lastGroup + 255) * 2 ^ 14
  behind : args.block (256 * args.lastGroup + 255) * 2 ^ 14 ≤ (m + 1) * args.bytestride

theorem Partial.largest {m : Nat} (h : args.Partial m) :
    args.block (256 * args.lastGroup + 255) % 2 = 1 ∧
      (254 - args.groupSize) * args.bytestride + 17 ≤ 2 ^ 14 ∧
      args.bytesize + (254 - args.groupSize) * args.bytestride <
        (256 * args.lastGroup + 255) * args.bytestride := by
  have hle := h.le
  obtain ⟨hodd, hstride⟩ := fits_largest h.fits h.two_le (by omega)
  exact ⟨hodd, hstride, bytesize_lt (by omega)⟩

/-- There is no element in the block before that of the largest one. -/
theorem Partial.not_isElement {m : Nat} (h : args.Partial m) (hle : n ≤ m)
    (hblock : args.block (256 * args.lastGroup + 255) * 2 ^ 14 ≤ n * args.bytestride + 2 ^ 14)
    (hnear : args.Near n) : ¬args.IsElement n := by
  intro helement
  have hodd := (h.fits n helement hnear).1
  have hlast := h.largest.1
  have hbefore := h.before
  have hmul := Nat.mul_le_mul_right args.bytestride hle
  unfold block at *
  omega

/-- Between the block of the largest element and the last element before it, there is room for one
number less than the last group lacks. -/
theorem Partial.gap {m v : Nat} (h : args.Partial m) (hle : 256 * args.lastGroup + v ≤ m)
    (hgap : m + 1 ≤ 256 * args.lastGroup + v + (254 - args.groupSize)) :
    ¬(occupied args.groupSize).testBit v := by
  intro hv
  obtain ⟨hodd, hstride, hsize⟩ := h.largest
  have hbehind := h.behind
  have hmul := Nat.mul_le_mul_right args.bytestride hgap
  rw [Nat.add_mul _ (254 - _)] at hmul
  have hne : 256 * args.lastGroup + v ≠ 0 := by
    intro hzero
    rw [hzero, Nat.zero_mul] at hmul
    omega
  have hupper : (256 * args.lastGroup + 255) * args.bytestride <
      args.block (256 * args.lastGroup + 255) * 2 ^ 14 + 2 ^ 14 := by
    unfold block
    omega
  refine h.not_isElement hle (by omega) ?_ (isElement_iff.mpr ⟨hne, .inr ⟨v, hv, rfl⟩⟩)
  unfold Near
  omega

/-- The last number before the block of the largest element is in the last group. -/
theorem Partial.exists_add {m : Nat} (h : args.Partial m) :
    ∃ a < 255, m = 256 * args.lastGroup + a := by
  obtain ⟨hodd, hstride, hsize⟩ := h.largest
  have htwo := h.two_le
  have hle := h.le
  have hbefore := h.before
  have hbehind := h.behind
  have hone := Nat.mul_le_mul_right args.bytestride (show 1 ≤ 254 - args.groupSize by omega)
  rw [Nat.succ_mul m] at hbehind
  have hlt : m < 256 * args.lastGroup + 255 := by
    by_contra hge
    have hmul := Nat.mul_le_mul_right args.bytestride (Nat.le_of_not_lt hge)
    unfold block at hbefore
    omega
  have hupper : (256 * args.lastGroup + 255) * args.bytestride <
      args.block (256 * args.lastGroup + 255) * 2 ^ 14 + 2 ^ 14 := by
    unfold block
    omega
  by_contra hnone
  have hgroup : m < 256 * args.lastGroup := by
    by_contra hge
    exact hnone ⟨m - 256 * args.lastGroup, by omega, by omega⟩
  have hne : m ≠ 0 := by
    rintro rfl
    rw [Nat.zero_mul] at hbehind
    omega
  refine h.not_isElement (Nat.le_refl m) (by omega) ?_ (isElement_iff.mpr ⟨hne, .inl hgroup⟩)
  unfold Near
  omega

/-- With short strides, the first element of the last group is in the block before that of the
largest one. -/
theorem Partial.lt_groupSize {m : Nat} (h : args.Partial m) : 26 < args.groupSize := by
  by_contra hle
  obtain ⟨hodd, hstride, hsize⟩ := h.largest
  obtain ⟨a, ha, hm⟩ := h.exists_add
  have hmany := Nat.mul_le_mul_right args.bytestride (show 228 ≤ 254 - args.groupSize by omega)
  have hdvd := args.dvd
  have hshort : args.bytestride ≤ 64 := by omega
  have hsplit := Nat.add_mul (256 * args.lastGroup) 255 args.bytestride
  have hfew : 255 * args.bytestride ≤
      (254 - args.groupSize) * args.bytestride + 27 * args.bytestride := by
    rw [← Nat.add_mul]
    exact Nat.mul_le_mul_right _ (by omega)
  have hpos : 256 * args.lastGroup ≠ 0 := by
    intro hzero
    unfold block at hodd
    rw [hzero, Nat.zero_add, Nat.div_eq_of_lt (by omega)] at hodd
    cases hodd
  have hfirst : (occupied args.groupSize).testBit 0 :=
    occupied_iff.mpr ⟨0, by have := h.two_le; omega, by decide, nextelement_first⟩
  refine h.not_isElement (n := 256 * args.lastGroup) (by omega) ?_ ?_
    (isElement_iff.mpr ⟨hpos, .inr ⟨0, hfirst, rfl⟩⟩)
  · unfold block
    omega
  · unfold Near
    omega

/-- Where all but three elements of the last group are there, strides are too long for two numbers
that it lacks, or all places are multiples of `2^11`, and there is room for one more number. -/
theorem Partial.groupSize_ne {m : Nat} (h : args.Partial m) : args.groupSize ≠ 253 := by
  intro hgroup
  obtain ⟨a, ha, rfl⟩ := h.exists_add
  obtain ⟨hodd, hstride, hsize⟩ := h.largest
  have hbehind := h.behind
  have hgap {v : Nat} (hle : v ≤ a) (hlt : a < v + 1) := @Partial.gap args _ v h (by omega)
    (by omega)
  rw [hgroup] at hgap hstride hsize
  have hupper : (256 * args.lastGroup + 255) * args.bytestride <
      args.block (256 * args.lastGroup + 255) * 2 ^ 14 + 2 ^ 14 := by
    unfold block
    omega
  by_cases hlong : 2048 < args.bytestride
  · have hend : 247 ≤ a := by
      by_contra hlt
      have hmul := Nat.mul_le_mul_right args.bytestride
        (show 256 * args.lastGroup + a + 1 + 8 ≤ 256 * args.lastGroup + 255 by omega)
      rw [Nat.add_mul _ 8] at hmul
      omega
    exact hgap (Nat.le_refl a) (by omega) (occupied_end a ha hend)
  · obtain ⟨d, hd, hda, hplace⟩ := occupied_two a (by omega)
    have hplace := occupied_mono (show 242 ≤ 253 by decide) hplace
    obtain rfl | rfl : d = 0 ∨ d = 1 := by omega
    · exact hgap (by omega) (by omega) hplace
    · -- Room is left for one number more.
      have hmultiple : 2 ^ 8 * 8 ∣ (256 * args.lastGroup + 255 + 1) * args.bytestride :=
        Nat.mul_dvd_mul (show 2 ^ 8 ∣ 256 * args.lastGroup + 255 + 1 by omega) args.dvd
      rw [Nat.succ_mul (_ + 255)] at hmultiple
      have hroom : args.block (256 * args.lastGroup + 255) * 2 ^ 14 ≤
          (256 * args.lastGroup + (a - 1)) * args.bytestride + 2 * args.bytestride := by
        rw [← Nat.add_mul]
        exact hbehind.trans (Nat.mul_le_mul_right _ (by omega))
      rw [← hgroup] at hplace
      refine h.not_isElement (n := 256 * args.lastGroup + (a - 1)) (by omega) (by omega) ?_
        (isElement_iff.mpr ⟨?_, .inr ⟨a - 1, hplace, rfl⟩⟩)
      · unfold Near
        unfold block at *
        omega
      · intro hzero
        rw [hzero, Nat.zero_mul] at hroom
        omega

theorem not_partial {m : Nat} : ¬args.Partial m := by
  intro h
  obtain ⟨a, ha, rfl⟩ := h.exists_add
  have hlo := h.lt_groupSize
  have hhi := h.le
  have hne := h.groupSize_ne
  have hgap {w r : Nat} (hr : r ≤ args.groupSize) (hw : w ≤ 254 - args.groupSize)
      (hplaces : ∃ d < w, d ≤ a ∧ (occupied r).testBit (a - d)) : False := by
    obtain ⟨d, hd, hda, hplace⟩ := hplaces
    exact h.gap (by omega) (by omega) (occupied_mono hr hplace)
  obtain hsize | hsize | hsize : args.groupSize ≤ 226 ∨
      (227 ≤ args.groupSize ∧ args.groupSize ≤ 250) ∨ 251 ≤ args.groupSize := by omega
  · exact hgap (by omega) (by omega) (occupied_28 a (by omega))
  · exact hgap (by omega) (by omega) (occupied_four a (by omega))
  · exact hgap (by omega) (by omega) (occupied_two a (by omega))

/-- The elements of a list fit just if the size of the buffer and the stride say so. -/
theorem fits_iff : (∀ n, args.IsElement n → args.Near n → args.Fits n) ↔ args.ExtrabitFits := by
  by_cases hgroup : args.groupSize ≤ 1 ∨ 254 ≤ args.groupSize
  · exact fits_iff_of_group hgroup
  · refine iff_of_false (fun hall => ?_) ?_
    · have hodd := (fits_largest hall (by omega) (by omega)).1
      obtain ⟨m, hbefore, hbehind⟩ := args.exists_last_before
        (show 0 < args.block (256 * args.lastGroup + 255) * 2 ^ 14 by omega)
      exact not_partial ⟨hall, by omega, by omega, hbefore, hbehind⟩
    · rintro (hlt | ⟨h, -⟩)
      · have hlast : args.lastElement = _ := lastElement_of_two_le (by omega)
        have hsize := @bytesize_lt args (by omega)
        have hle := (firstNear_le_iff (by omega) args.not_lacks_lastElement).mp (by
          unfold Near
          rw [hlast]
          omega)
        omega
      · exact hgroup h

end LongListArgs

end Extrabit

section Inside

namespace LongListArgs

variable (args : LongListArgs)

/-- When the list stays in its buffer. -/
def StaysInside : Prop :=
  match args.makelinear, args.useExtrabit with
  | true, _ => True
  | false, false => args.LastGroupFits
  | false, true => args.ExtrabitFits

theorem inside_iff_staysInside :
    (∀ i < args.elementCount, args.position i + 16 ≤ args.bytesize) ↔ args.StaysInside := by
  have hpair : 16 ≤ args.bytesize := Nat.le_trans args.pair_le args.stride_le
  unfold StaysInside
  cases hlinear : args.makelinear with
  | true =>
    have hextra : args.extrabit = 0 := by simp [extrabit, hlinear]
    refine iff_of_true (fun i hi => ?_) trivial
    rw [args.position_of_extrabit_zero hextra, hlinear, nextelement_linear, start_inside_iff]
    exact .inl hi
  | false =>
    cases hbit : args.useExtrabit with
    | false =>
      have hextra : args.extrabit = 0 := by simp [extrabit, hbit]
      simp only [args.position_of_extrabit_zero hextra, hlinear]
      exact args.scrambled_inside_iff
    | true =>
      have hextra : args.extrabit = 2 ^ 14 := by simp [extrabit, hlinear, hbit]
      -- What the extra bit does to an element depends on the block that it is in.
      have hmove (n : Nat) : (n * args.bytestride ^^^ 2 ^ 14) + 16 ≤ args.bytesize ↔
          (args.Near n → args.Fits n) := by
        rw [xor_two_pow, Nat.testBit_eq_decide_div_mod_eq]
        unfold Near Fits block
        split
        · next hodd =>
          have hodd := of_decide_eq_true hodd
          omega
        · next heven =>
          have heven : ¬n * args.bytestride / 2 ^ 14 % 2 = 1 := by simpa using heven
          omega
      change _ ↔ args.ExtrabitFits
      rw [← fits_iff]
      constructor
      · rintro hall n ⟨i, hi, hne, rfl⟩
        have hinside := hall i hi
        rw [args.position_of_extrabit hextra hne, hlinear] at hinside
        exact (hmove _).mp hinside
      · intro hall i hi
        by_cases hzero : i = 0
        · simpa [hzero] using hpair
        · rw [args.position_of_extrabit hextra hzero, hlinear]
          exact (hmove _).mpr (hall _ ⟨i, hi, hzero, rfl⟩)

end LongListArgs

/-- `MakeLongList` sets pairs inside its buffer if, and only if, the list is linear, or its last
group of 256 elements fits, or it fits with the extra bit, as the size of the buffer and the stride
say. -/
theorem makeLongList_inside_iff (args : LongListArgs) {buf : Buf Word}
    (hsize : buf.size = args.bytesize / 8) :
    (∃ r, makeLongList args buf = .ok r) ↔ args.StaysInside := by
  rw [← args.inside_iff_staysInside]
  constructor
  · rintro ⟨r, h⟩
    exact ((makeLongList_ok_iff hsize).mp h).1
  · intro h
    exact ⟨_, (makeLongList_ok_iff hsize).mpr ⟨h, rfl⟩⟩

/-- A list of 256 elements, whose strides are so long that the extra bit does not reach the next
one. -/
def groupArgs : LongListArgs where
  bytesize := 2 ^ 23
  bytestride := 2 ^ 15
  makelinear := false
  useExtrabit := true
  dvd := by decide
  pair_le := by decide
  stride_le := by decide
  size_lt := by decide
  start_lt i hi := by
    have hlt := nextelement_lt i
    omega

theorem groupArgs_staysInside : groupArgs.StaysInside :=
  show groupArgs.ExtrabitFits by decide

theorem makeLongList_inside_group :
    ∃ r, makeLongList groupArgs (Buf.alloc (2 ^ 20)) = .ok r :=
  (makeLongList_inside_iff groupArgs rfl).mpr groupArgs_staysInside

/-- `MAX_CACHE_SIZE_B` -/
def maxCacheSizeB : Nat := 80 * 1024 * 1024

theorem maxCacheSizeB_lt : maxCacheSizeB < 2 ^ 31 := by decide

/-- The list that `MeasureL2CacheLevelAssoc` has `AssocSetup` make for an associativity of 8 or
more, with the `l2_size_bytes` that `main` passes. -/
def l2AssocArgs : LongListArgs where
  bytesize := maxCacheSizeB
  bytestride := 256 * 1024
  makelinear := false
  useExtrabit := true
  dvd := by decide
  pair_le := by decide
  stride_le := by decide
  size_lt := maxCacheSizeB_lt
  start_lt i hi := by
    have hlt := nextelement_lt i
    simp only [maxCacheSizeB] at hi
    omega

/-- The second element of the last, partial group is far behind the end of the buffer. -/
theorem makeLongList_outside :
    ¬∃ r, makeLongList l2AssocArgs (Buf.alloc (maxCacheSizeB / 8)) = .ok r := by
  rintro ⟨r, h⟩
  have hinside := ((makeLongList_ok_iff rfl).mp h).1 257 (by decide)
  revert hinside
  decide +kernel

end Inside

end SoftwareDynamics.Memory

import SoftwareDynamics.ProofKit.While
import SoftwareDynamics.Network.Rpc
import Mathlib.Data.Nat.Log

/-! The logarithm of `rpc.cc` where there is no `bsr`.  Its loop counts the doublings of `pow` that
reach the number, which is the logarithm rounded up, and `bsr` rounds it down. -/

namespace SoftwareDynamics.Network

open ProofKit

/-- The variables of the loop. -/
structure LogLoop where
  ret : UInt32
  pow : UInt32

def LogLoop.start : LogLoop := ⟨0, 1⟩

def LogLoop.next (s : LogLoop) : LogLoop := ⟨s.ret + 1, s.pow <<< 1⟩

/-- `pow < x` -/
def LogLoop.below (x : UInt32) (s : LogLoop) : Bool := s.pow < x

/-- `ilog2` in the portable build, or `none` where its loop has not ended before the given number of
tests. -/
def portableIlog2 (fuel : Nat) (x : UInt32) : Option UInt8 :=
  (whileLoop (LogLoop.below x) LogLoop.next fuel .start).map fun s => s.ret.toUInt8

theorem LogLoop.below_iff {x : UInt32} {s : LogLoop} :
    s.below x = true ↔ s.pow.toNat < x.toNat :=
  decide_eq_true_iff

theorem pow_next {s : LogLoop} {i : Nat} (h : s.pow.toNat = 2 ^ i) :
    s.next.pow.toNat = 2 ^ (i + 1) % 2 ^ 32 := by
  simp [LogLoop.next, h, Nat.shiftLeft_eq, Nat.pow_succ]

/-- `pow` is the `ret`th power of two, and no power before the last one that the loop needs is
enough. -/
def LogLoop.Counts (x : UInt32) (s : LogLoop) : Prop :=
  ∃ i ≤ Nat.clog 2 x.toNat, s.ret = .ofNat i ∧ s.pow.toNat = 2 ^ i

theorem LogLoop.Counts.start (x : UInt32) : LogLoop.start.Counts x :=
  ⟨0, Nat.zero_le _, rfl, rfl⟩

theorem LogLoop.Counts.next {x : UInt32} {s : LogLoop} (hx : x.toNat ≤ 2 ^ 31) (h : s.Counts x)
    (hbelow : s.below x = true) :
    s.next.Counts x ∧ x.toNat - s.next.pow.toNat < x.toNat - s.pow.toNat := by
  obtain ⟨i, hi, hret, hpow⟩ := h
  have hlt : 2 ^ i < x.toNat := hpow ▸ LogLoop.below_iff.mp hbelow
  have hlt' : i < Nat.clog 2 x.toNat := (Nat.lt_clog_iff_pow_lt (by decide)).mpr hlt
  have hle : Nat.clog 2 x.toNat ≤ 31 := Nat.clog_le_of_le_pow hx
  have hfit : 2 ^ (i + 1) < 2 ^ 32 := Nat.pow_lt_pow_right (by decide) (by omega)
  have hnext : s.next.pow.toNat = 2 ^ (i + 1) := (pow_next hpow).trans (Nat.mod_eq_of_lt hfit)
  refine ⟨⟨i + 1, hlt', ?_, hnext⟩, ?_⟩
  · simp [LogLoop.next, hret]
  · rw [hnext, hpow, Nat.pow_succ]
    have := Nat.two_pow_pos i
    omega

/-- Up to `2^31` the loop ends. -/
theorem ends_portableIlog2 {x : UInt32} (hx : x.toNat ≤ 2 ^ 31) :
    ∃ t, Ends (LogLoop.below x) LogLoop.next .start t :=
  Ends.of_measure (fun s => x.toNat - s.pow.toNat) (LogLoop.Counts.start x)
    fun _ hs hbelow => LogLoop.Counts.next hx hs hbelow

/-- Up to `2^31` the loop ends with the logarithm rounded up. -/
theorem ret_portableIlog2 {x : UInt32} (hx : x.toNat ≤ 2 ^ 31) {t : LogLoop}
    (ht : Ends (LogLoop.below x) LogLoop.next .start t) :
    t.ret = .ofNat (Nat.clog 2 x.toNat) := by
  obtain ⟨⟨i, hi, hret, hpow⟩, hstop⟩ := ht.holds (LogLoop.Counts.start x) fun s hs hbelow =>
    (LogLoop.Counts.next hx hs hbelow).1
  have hle : x.toNat ≤ 2 ^ i := by
    rw [← hpow]
    exact Nat.not_lt.mp fun hlt => Bool.eq_false_iff.mp hstop (LogLoop.below_iff.mpr hlt)
  have hi' : Nat.clog 2 x.toNat = i := Nat.le_antisymm (Nat.clog_le_of_le_pow hle) hi
  exact hi' ▸ hret

/-- Past `2^31` no power of two is enough: after the last one, the shift leaves zero. -/
theorem never_portableIlog2 {x : UInt32} (hx : 2 ^ 31 < x.toNat) {t : LogLoop} :
    ¬Ends (LogLoop.below x) LogLoop.next .start t := by
  refine Ends.never (I := fun s => s.pow.toNat = 0 ∨ ∃ i ≤ 31, s.pow.toNat = 2 ^ i)
    (.inr ⟨0, by omega, rfl⟩) fun s hs => ?_
  rcases hs with hzero | ⟨i, hi, hpow⟩
  · refine ⟨LogLoop.below_iff.mpr (by omega), .inl ?_⟩
    simp [LogLoop.next, hzero]
  · have hle : 2 ^ i ≤ 2 ^ 31 := Nat.pow_le_pow_right (by decide) hi
    refine ⟨LogLoop.below_iff.mpr (by omega), ?_⟩
    rw [pow_next hpow]
    rcases Nat.lt_or_eq_of_le hi with hlt | rfl
    · exact .inr ⟨i + 1, hlt, Nat.mod_eq_of_lt (Nat.pow_lt_pow_right (by decide) (by omega))⟩
    · exact .inl rfl

/-- The portable build ends with the number that `bsr` gives. -/
def SameLog (x : UInt32) : Prop :=
  ∃ fuel y, portableIlog2 fuel x = some y ∧ ilog2 x = pure y

/-- Only of a number other than zero does `bsr` give a definite logarithm. -/
theorem ilog2_eq_pure_iff {x : UInt32} {y : UInt8} :
    ilog2 x = pure y ↔ x ≠ 0 ∧ UInt8.ofNat x.toNat.log2 = y := by
  unfold ilog2
  split_ifs with hx
  · constructor
    · intro h
      cases h
    · rintro ⟨h, -⟩
      exact absurd hx h
  · constructor
    · intro h
      cases h
      exact ⟨hx, rfl⟩
    · rintro ⟨-, rfl⟩
      rfl

theorem log_byte_inj {m n : Nat} (hm : m < 32) (hn : n < 32) :
    (UInt32.ofNat m).toUInt8 = UInt8.ofNat n ↔ m = n := by
  constructor
  · intro h
    have h' := congrArg UInt8.toNat h
    simp only [UInt32.toNat_toUInt8, UInt32.toNat_ofNat', UInt8.toNat_ofNat'] at h'
    omega
  · rintro rfl
    apply UInt8.toNat_inj.mp
    simp only [UInt32.toNat_toUInt8, UInt32.toNat_ofNat', UInt8.toNat_ofNat']
    omega

/-- Up to `2^31` the two builds agree where the two roundings do. -/
theorem sameLog_of_le {x : UInt32} (hx : x.toNat ≤ 2 ^ 31) :
    SameLog x ↔ x ≠ 0 ∧ Nat.clog 2 x.toNat = x.toNat.log2 := by
  have hclog : Nat.clog 2 x.toNat < 32 := Nat.lt_succ_of_le (Nat.clog_le_of_le_pow hx)
  have hlog : x.toNat.log2 < 32 := by
    rw [Nat.log2_eq_log_two]
    exact Nat.lt_of_le_of_lt (Nat.log_le_clog 2 x.toNat) hclog
  constructor
  · rintro ⟨fuel, y, hloop, hbsr⟩
    obtain ⟨t, ht, rfl⟩ := Option.map_eq_some_iff.mp hloop
    obtain ⟨hne, hy⟩ := ilog2_eq_pure_iff.mp hbsr
    rw [ret_portableIlog2 hx ⟨fuel, ht⟩] at hy
    exact ⟨hne, (log_byte_inj hclog hlog).mp hy.symm⟩
  · rintro ⟨hne, heq⟩
    obtain ⟨t, fuel, ht⟩ := ends_portableIlog2 hx
    refine ⟨fuel, _, Option.map_eq_some_iff.mpr ⟨t, ht, rfl⟩, ilog2_eq_pure_iff.mpr ⟨hne, ?_⟩⟩
    rw [ret_portableIlog2 hx ⟨fuel, ht⟩]
    exact ((log_byte_inj hclog hlog).mpr heq).symm

/-- The two builds agree on the powers of two. -/
theorem sameLog_iff (x : UInt32) : SameLog x ↔ ∃ k, x.toNat = 2 ^ k := by
  by_cases hx : x.toNat ≤ 2 ^ 31
  · rw [sameLog_of_le hx]
    constructor
    · rintro ⟨hne, heq⟩
      have hne' : x.toNat ≠ 0 := fun h => hne (UInt32.toNat_inj.mp h)
      refine ⟨x.toNat.log2, Nat.le_antisymm ?_ (Nat.log2_self_le hne')⟩
      rw [← heq]
      exact Nat.le_pow_clog (by decide) _
    · rintro ⟨k, hk⟩
      refine ⟨?_, ?_⟩
      · rintro rfl
        exact absurd hk.symm (Nat.two_pow_pos k).ne'
      · rw [hk, Nat.clog_pow 2 k (by decide), Nat.log2_two_pow]
  · constructor
    · rintro ⟨fuel, y, hloop, -⟩
      obtain ⟨t, ht, -⟩ := Option.map_eq_some_iff.mp hloop
      exact absurd ⟨fuel, ht⟩ (never_portableIlog2 (Nat.not_le.mp hx))
    · rintro ⟨k, hk⟩
      have hk32 : k < 32 := (Nat.pow_lt_pow_iff_right (by decide)).mp (hk ▸ x.toNat_lt)
      exact absurd (hk ▸ Nat.pow_le_pow_right (by decide) (by omega)) hx

/-- Of three, the loop counts two doublings, and the highest bit is bit 1. -/
theorem not_sameLog_three : ¬SameLog 3 := by
  rw [sameLog_of_le (by decide)]
  decide

end SoftwareDynamics.Network

import SoftwareDynamics.Memory.CutShort

/-! The scrambled lists of `memory.cc` as they are made: `MakeLongList` takes sizes that are wider
as `int`s, and is not made for all of them. -/

namespace SoftwareDynamics.Memory

open ProofKit

section Program

/-- What `MakeLongList` needs of the stride of a scrambled list. -/
structure Callable (bytesize bytestride : Nat) : Prop where
  dvd : 8 ∣ bytestride
  pair_le : 16 ≤ bytestride
  stride_le : bytestride ≤ bytesize
  size_lt : bytesize < 2 ^ 31
  start_lt : ∀ i < bytesize / bytestride, nextelement false i * bytestride < 2 ^ 31

instance (bytesize bytestride : Nat) : Decidable (Callable bytesize bytestride) :=
  decidable_of_iff (8 ∣ bytestride ∧ 16 ≤ bytestride ∧ bytestride ≤ bytesize ∧ bytesize < 2 ^ 31 ∧
      ∀ i < bytesize / bytestride, nextelement false i * bytestride < 2 ^ 31)
    ⟨fun h => ⟨h.1, h.2.1, h.2.2.1, h.2.2.2.1, h.2.2.2.2⟩,
      fun h => ⟨h.dvd, h.pair_le, h.stride_le, h.size_lt, h.start_lt⟩⟩

/-- A scrambled list, which `MakeLongList` is asked for. -/
def scrambledArgs {bytesize bytestride : Nat} (h : Callable bytesize bytestride)
    (useExtrabit : Bool) : LongListArgs where
  bytesize := bytesize
  bytestride := bytestride
  makelinear := false
  useExtrabit := useExtrabit
  dvd := h.dvd
  pair_le := h.pair_le
  stride_le := h.stride_le
  size_lt := h.size_lt
  start_lt := h.start_lt

/-- A size as an `int`, or 0 where that is negative. -/
def asInt (size : Nat) : Nat := (Int32.ofNat size).toNatClampNeg

/-- A call of `MakeLongList` for a scrambled list, which takes both sizes as `int`s, and makes a
list of one pair if there is room for no more.  Any other stride that it is not made for is a fault
of its caller. -/
def makeScrambledList (bytesize bytestride : Nat) (useExtrabit : Bool) (buf : Buf Word) :
    Checked (Buf Word × Word) :=
  let bytesizeInt := Int32.ofNat bytesize
  let bytestrideInt := Int32.ofNat bytestride
  if h : Callable (asInt bytesize) (asInt bytestride) then
    makeLongList (scrambledArgs h useExtrabit) buf
  else if 0 ≤ bytesizeInt ∧ bytestrideInt ≠ 0 ∧ bytesizeInt / bytestrideInt ≤ 1 then do
    let buf ← setPair buf 0 none
    return (buf, some 0)
  else .error .assertion

end Program

section Made

variable {bytesize bytestride : Nat} {useExtrabit : Bool} {buf : Buf Word} {r : Buf Word × Word}

theorem asInt_eq (size : Nat) :
    asInt size = if size % 2 ^ 32 < 2 ^ 31 then size % 2 ^ 32 else 0 := by
  have hint : (Int32.ofNat size).toInt = (size : Int).bmod (2 ^ 32) := Int32.toInt_ofNat'
  rw [asInt, Int32.toNatClampNeg, hint, Int.bmod]
  split_ifs <;> omega

theorem asInt_of_lt {size : Nat} (h : size < 2 ^ 31) : asInt size = size := by
  rw [asInt_eq, Nat.mod_eq_of_lt (by omega), if_pos h]

theorem dvd_asInt {k : Nat} (hk : 2 ^ k ∣ bytestride) : 2 ^ k ∣ asInt bytestride := by
  rw [asInt_eq]
  split
  · rcases Nat.le_total k 32 with hle | hle
    · exact (Nat.dvd_mod_iff (Nat.pow_dvd_pow 2 hle)).mpr hk
    · rw [Nat.mod_eq_zero_of_dvd ((Nat.pow_dvd_pow 2 hle).trans hk)]
      exact Nat.dvd_zero _
  · exact Nat.dvd_zero _

theorem hasNext_putPair {pairptr : Nat} (hlt : pairptr / 8 + 1 < buf.size) (next : Word) :
    HasNext (putPair buf pairptr next) pairptr next := by
  refine Buf.load_eq (show pairptr / 8 < buf.size by omega) ?_
  rw [LongListArgs.putPair_cell, if_neg (by omega), if_pos rfl]

theorem makeScrambledList_eq (hfits : bytesize < 2 ^ 31)
    (hcall : Callable bytesize (asInt bytestride)) :
    makeScrambledList bytesize bytestride useExtrabit buf =
      makeLongList (scrambledArgs hcall useExtrabit) buf := by
  unfold makeScrambledList
  simp only [asInt_of_lt hfits]
  exact dif_pos hcall

/-- The sizes that `MakeLongList` is made for are `int`s. -/
theorem makeScrambledList_callable (hcall : Callable bytesize bytestride) :
    makeScrambledList bytesize bytestride useExtrabit buf =
      makeLongList (scrambledArgs hcall useExtrabit) buf := by
  have hstride := asInt_of_lt (Nat.lt_of_le_of_lt hcall.stride_le hcall.size_lt)
  rw [makeScrambledList_eq hcall.size_lt (hstride.symm ▸ hcall)]
  simp only [scrambledArgs, hstride]

/-- A list that has been made is one that `MakeLongList` is made for, or has one pair. -/
theorem makeScrambledList_ok (hfits : bytesize < 2 ^ 31) (hsize : buf.size = bytesize / 8)
    (h : makeScrambledList bytesize bytestride useExtrabit buf = .ok r) :
    r.1.size = bytesize / 8 ∧
      ((∃ hcall : Callable bytesize (asInt bytestride),
        makeLongList (scrambledArgs hcall useExtrabit) buf = .ok r) ∨
          Visits (HasNext r.1) r.2 [0]) := by
  unfold makeScrambledList at h
  simp only [asInt_of_lt hfits] at h
  split at h
  · next hcall =>
    refine ⟨?_, .inl ⟨hcall, h⟩⟩
    obtain ⟨-, rfl⟩ := (makeLongList_ok_iff hsize).mp h
    rw [LongListArgs.built_size, hsize]
  · split at h
    · obtain ⟨buf', hset, hret⟩ := Checked.of_bind h
      obtain ⟨hlt, rfl⟩ := setPair_ok_iff.mp hset
      cases hret
      exact ⟨hsize, .inr (.cons (hasNext_putPair hlt none) .nil)⟩
    · cases h

end Made

end SoftwareDynamics.Memory

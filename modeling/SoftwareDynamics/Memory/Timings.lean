import SoftwareDynamics.Memory.Scrambled

/-! The timings of `memory.cc` that make a list and follow it for `N_LOADS` pairs: the unrolled loop
against the rolled one, and the sizes for which a list is long enough. -/

namespace SoftwareDynamics.Memory

open ProofKit

section Program

/-- `N_LOADS` -/
def nLoads : Nat := 256

/-- `LinearTiming` -/
def linearTiming (byteSize byteStride : Nat) (buf : Buf Word) : Checked Word := do
  let (buf, pairptr) ← makeLinkedList byteSize byteStride buf
  unrolledLoop buf pairptr nLoads

/-- `LinearRolledTiming` -/
def linearRolledTiming (byteSize byteStride : Nat) (buf : Buf Word) : Checked Word := do
  let (buf, pairptr) ← makeLinkedList byteSize byteStride buf
  loop nLoads (fun _ => loadNext buf) pairptr

/-- `ScrambledTiming` -/
def scrambledTiming (byteSize byteStride : Nat) (buf : Buf Word) : Checked Word := do
  let (buf, pairptr) ← makeScrambledList byteSize byteStride true buf
  unrolledLoop buf pairptr nLoads

/-- `ScrambledNoExtrabitTiming` -/
def scrambledNoExtrabitTiming (byteSize byteStride : Nat) (buf : Buf Word) : Checked Word := do
  let (buf, pairptr) ← makeScrambledList byteSize byteStride false buf
  unrolledLoop buf pairptr nLoads

end Program

section Ends

variable {buf : Buf Word}

theorem unrolledLoop_nLoads (pairptr : Word) :
    unrolledLoop buf pairptr nLoads = assocRead buf pairptr nLoads := unrolledLoop_eq buf pairptr _

/-- Both linear timings come to the same pointer, where an `int` can count the elements.  They end
if the buffer has room for as many elements as they load, and come to `NULL` if it has room for no
more. -/
theorem linearTimings_agree {byteSize byteStride : Nat} (hdvd : 16 ∣ byteStride)
    (hpos : 0 < byteStride) (hle : byteStride ≤ byteSize)
    (_hcount : byteSize / byteStride < 2 ^ 31) (hsize : buf.size = byteSize / 8) :
    linearTiming byteSize byteStride buf = linearRolledTiming byteSize byteStride buf ∧
      ∀ w, linearTiming byteSize byteStride buf = .ok w ↔
        nLoads ≤ byteSize / byteStride ∧
          w = if nLoads < byteSize / byteStride then some (nLoads * byteStride) else none := by
  obtain ⟨⟨linked, root⟩, hmake, -, hvisits⟩ := makeLinkedList_yields hdvd hpos hle hsize
  rw [linearTiming, linearRolledTiming, hmake, Checked.ok_bind, Checked.ok_bind]
  dsimp only
  rw [unrolledLoop_nLoads]
  refine ⟨rfl, fun w => ?_⟩
  rw [assocRead_ok_iff hvisits, List.length_map, List.length_range, List.getElem?_map]
  split
  · next hlt => rw [List.getElem?_range hlt, Option.map_some]
  · next hge =>
    rw [List.getElem?_eq_none (by rw [List.length_range]; omega), Option.map_none]

theorem linearTimings_agree_rows : linearTiming (2 ^ 20) (2 ^ 12) (.alloc (2 ^ 17)) = .ok none :=
  ((linearTimings_agree (by decide) (by decide) (by decide) (by decide) rfl).2 none).mpr (by decide)

/-- What a traversal of a scrambled list comes to. -/
theorem traverse_ok_iff {args : LongListArgs} (hdvd : 16 ∣ args.bytestride)
    (hsize : buf.size = args.bytesize / 8) {s : Nat} (hcut : args.CutAt s) (w : Word) :
    (do let (buf, pairptr) ← makeLongList args buf; unrolledLoop buf pairptr nLoads) = .ok w ↔
      args.StaysInside ∧ s + nLoads ≤ args.elementCount ∧
        w = if s + nLoads < args.elementCount then some (args.position (s + nLoads)) else none := by
  have hlt := hcut.lt
  have hread {r : Buf Word × Word} (hmake : makeLongList args buf = .ok r) :
      unrolledLoop r.1 r.2 nLoads = .ok w ↔ s + nLoads ≤ args.elementCount ∧
        w = if s + nLoads < args.elementCount then some (args.position (s + nLoads)) else none := by
    rw [unrolledLoop_nLoads, assocRead_ok_iff (makeLongList_visits hdvd hcut hsize hmake),
      List.length_map, List.length_range, List.getElem?_map]
    refine and_congr (by omega) ?_
    split
    · next hinside => rw [List.getElem?_range (by omega), Option.map_some]
    · next hbehind =>
      rw [List.getElem?_eq_none (by rw [List.length_range]; omega), Option.map_none]
  constructor
  · intro h
    obtain ⟨r, hmake, hloop⟩ := Checked.of_bind h
    have hinside := ((makeLongList_ok_iff hsize).mp hmake).1
    exact ⟨args.inside_iff_staysInside.mp hinside, (hread hmake).mp hloop⟩
  · rintro ⟨hinside, hrest⟩
    have hmake := (makeLongList_ok_iff hsize).mpr ⟨args.inside_iff_staysInside.mpr hinside, rfl⟩
    rw [hmake]
    exact (hread hmake).mpr hrest

/-- With strides that are multiples of `sizeof(Pair)`, the scrambled timings end if their list stays
in its buffer and has `N_LOADS` elements from the last one on that is put on the first.  Without the
extra bit none is put there. -/
theorem scrambledTimings_ok_iff {byteSize byteStride : Nat} (hcall : Callable byteSize byteStride)
    (hdvd : 16 ∣ byteStride) (hsize : buf.size = byteSize / 8) {s : Nat}
    (hcut : (scrambledArgs hcall true).CutAt s) (w : Word) :
    (scrambledTiming byteSize byteStride buf = .ok w ↔
      (scrambledArgs hcall true).StaysInside ∧ s + nLoads ≤ byteSize / byteStride ∧
        w = if s + nLoads < byteSize / byteStride then
          some ((scrambledArgs hcall true).position (s + nLoads)) else none) ∧
    (scrambledNoExtrabitTiming byteSize byteStride buf = .ok w ↔
      (scrambledArgs hcall false).StaysInside ∧ nLoads ≤ byteSize / byteStride ∧
        w = if nLoads < byteSize / byteStride then
          some ((scrambledArgs hcall false).position nLoads) else none) := by
  rw [scrambledTiming, scrambledNoExtrabitTiming, makeScrambledList_callable hcall,
    makeScrambledList_callable hcall]
  refine ⟨@traverse_ok_iff buf (scrambledArgs hcall true) hdvd hsize s hcut w, ?_⟩
  obtain ⟨s', hcut'⟩ := (scrambledArgs hcall false).exists_cutAt
  obtain rfl := hcut'.eq_zero_of_extrabit rfl
  have htraverse := @traverse_ok_iff buf (scrambledArgs hcall false) hdvd hsize 0 hcut' w
  rwa [Nat.zero_add] at htraverse

/-- A list of as many elements as are loaded. -/
theorem scrambledTimings_ok_rows :
    scrambledNoExtrabitTiming (2 ^ 20) (2 ^ 12) (.alloc (2 ^ 17)) = .ok none := by
  have hcall : Callable (2 ^ 20) (2 ^ 12) := by
    refine ⟨by decide, by decide, by decide, by decide, fun i hi => ?_⟩
    have hlt := nextelement_lt i
    omega
  obtain ⟨s, hcut⟩ := (scrambledArgs hcall true).exists_cutAt
  refine (scrambledTimings_ok_iff hcall (by decide) rfl hcut none).2.mpr
    ⟨.inl (show 2 ^ 20 / 2 ^ 12 % 256 ≤ 1 by decide), by decide, (if_neg (by decide)).symm⟩

end Ends

end SoftwareDynamics.Memory

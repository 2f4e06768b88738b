import SoftwareDynamics.Memory.WellShaped

/-! `MakeLinkedList` of `memory.cc`, which chains pairs through a buffer by following each `next` it
has just stored, and its agreement with the linear lists of `MakeLongList`. -/

namespace SoftwareDynamics.Memory

open ProofKit

section Builder

/-- `ptr->next = next`, where a null pointer has no cell. -/
def storeNext (buf : Buf Word) (ptr next : Word) : Checked (Buf Word) :=
  match ptr with
  | some pairptr => buf.store (pairptr / 8) next
  | none => .error .outOfBounds

/-- `ptr->next` -/
def loadNext (buf : Buf Word) (ptr : Word) : Checked Word :=
  match ptr with
  | some pairptr => buf.load (pairptr / 8)
  | none => .error .outOfBounds

def sizeofPair : Nat := 16

/-- The body of the loop of `MakeLinkedList`, over the buffer and `curptr`. -/
def linkedListRound (pairStride i : Nat) (s : Buf Word × Word) : Checked (Buf Word × Word) := do
  let buf ← storeNext s.1 s.2 (some (i * pairStride * sizeofPair))
  let curptr ← loadNext buf s.2
  return (buf, curptr)

/-- `MakeLinkedList`, on the words of its buffer. -/
def makeLinkedList (byteSize byteStride : Nat) (buf : Buf Word) : Checked (Buf Word × Word) := do
  let rootptr : Word := some 0
  let pairStride := byteStride / sizeofPair
  let nPairs := byteSize / sizeofPair / pairStride
  let (buf, curptr) ← loop nPairs (linkedListRound pairStride) (buf, rootptr)
  let buf ← storeNext buf curptr none
  return (buf, rootptr)

end Builder

section Rounds

variable {pairStride : Nat} {buf : Buf Word}

/-- What the first `n` rounds leave: `curptr` is at the last element they have stored, and each
element before it points to the next one.  The root that the first round links to itself is linked
again by the second. -/
structure Linked (pairStride : Nat) (buf : Buf Word) (n : Nat) (s : Buf Word × Word) : Prop where
  size : s.1.size = buf.size
  curptr : s.2 = some ((n - 1) * pairStride * sizeofPair)
  linked : ∀ i, i + 1 < n → s.1.cell (i * pairStride * sizeofPair / 8) =
    some (some ((i + 1) * pairStride * sizeofPair))

/-- The words of elements are different for different elements. -/
theorem element_word (pairStride i : Nat) :
    i * pairStride * sizeofPair / 8 = i * (2 * pairStride) := by
  rw [sizeofPair, show (16 : Nat) = 2 * 8 from rfl, ← Nat.mul_assoc,
    Nat.mul_div_cancel _ (by decide), Nat.mul_assoc, Nat.mul_comm pairStride]

theorem element_word_inj (hstride : 0 < pairStride) {i j : Nat}
    (h : i * pairStride * sizeofPair / 8 = j * pairStride * sizeofPair / 8) : i = j := by
  rw [element_word, element_word] at h
  exact Nat.eq_of_mul_eq_mul_right (by omega) h

theorem linkedListRound_yields (hstride : 0 < pairStride) {n : Nat} {s : Buf Word × Word}
    (hs : Linked pairStride buf n s) (hinside : (n - 1) * pairStride * sizeofPair / 8 < buf.size) :
    Yields (linkedListRound pairStride n s) (Linked pairStride buf (n + 1)) := by
  obtain ⟨b, curptr⟩ := s
  obtain ⟨hsize, hcurptr, hlinked⟩ := hs
  simp only at hsize hcurptr hlinked
  subst hcurptr
  have hlt : (n - 1) * pairStride * sizeofPair / 8 < b.size := hsize ▸ hinside
  unfold linkedListRound
  simp only [storeNext, loadNext, Buf.store_eq _ hlt, Checked.ok_bind,
    Buf.load_eq (b := b.put _ _) hlt (Buf.put_cell_same b _ _)]
  refine .pure ⟨hsize, rfl, fun i hi => ?_⟩
  rw [Buf.put_cell]
  split
  · next heq =>
    -- The element that was the last one, or the root in the first two rounds.
    have hlast := element_word_inj hstride heq
    rw [show i + 1 = n by omega]
  · next hne =>
    apply hlinked
    by_contra hlast
    exact hne (by rw [show i = n - 1 by omega])

end Rounds

section Lists

variable {byteSize byteStride : Nat}

theorem element_offset (hdvd : 16 ∣ byteStride) (i : Nat) :
    i * (byteStride / sizeofPair) * sizeofPair = i * byteStride := by
  rw [sizeofPair, Nat.mul_assoc, Nat.div_mul_cancel hdvd]

theorem nPairs_eq (hdvd : 16 ∣ byteStride) :
    byteSize / sizeofPair / (byteStride / sizeofPair) = byteSize / byteStride := by
  rw [Nat.div_div_eq_div_mul, sizeofPair, Nat.mul_div_cancel' hdvd]

theorem element_inside {i : Nat} (hpair : 16 ≤ byteStride) (hi : i < byteSize / byteStride) :
    i * byteStride + 16 ≤ byteSize := by
  have hle := (Nat.le_div_iff_mul_le (by omega)).mp (Nat.succ_le_of_lt hi)
  rw [Nat.succ_mul] at hle
  omega

/-- `MakeLinkedList` chains the elements at the multiples of the stride in order. -/
theorem makeLinkedList_yields (hdvd : 16 ∣ byteStride) (hpos : 0 < byteStride)
    (hle : byteStride ≤ byteSize) {buf : Buf Word} (hsize : buf.size = byteSize / 8) :
    Yields (makeLinkedList byteSize byteStride buf) fun r => r.2 = some 0 ∧
      Visits (HasNext r.1) r.2 ((List.range (byteSize / byteStride)).map (· * byteStride)) := by
  have hpair : 16 ≤ byteStride := Nat.le_of_dvd hpos hdvd
  have hstride : 0 < byteStride / sizeofPair := Nat.div_pos hpair (by decide)
  have hinside {i : Nat} (hi : i < byteSize / byteStride) :
      i * (byteStride / sizeofPair) * sizeofPair / 8 < buf.size := by
    have hin := element_inside hpair hi
    rw [element_offset hdvd, hsize]
    omega
  obtain ⟨n, hn⟩ : ∃ n, byteSize / byteStride = n + 1 :=
    ⟨byteSize / byteStride - 1, by have := Nat.div_pos hle hpos; omega⟩
  unfold makeLinkedList
  dsimp only
  rw [nPairs_eq hdvd, hn]
  refine .bind (Yields.loop (Linked (byteStride / sizeofPair) buf) ?_ fun i s hi hs => ?_)
    fun s hs => ?_
  · exact ⟨rfl, by simp, fun i hi => absurd hi (Nat.not_lt_zero _)⟩
  · exact linkedListRound_yields hstride hs (hinside (by omega))
  · obtain ⟨b, curptr⟩ := s
    obtain ⟨hsize', hcurptr, hlinked⟩ := hs
    simp only [Nat.add_sub_cancel] at hsize' hcurptr hlinked
    subst hcurptr
    have hlt {i : Nat} (hi : i < byteSize / byteStride) :
        i * (byteStride / sizeofPair) * sizeofPair / 8 < b.size := hsize' ▸ hinside hi
    simp only [storeNext, Buf.store_eq _ (hlt (show n < byteSize / byteStride by omega)),
      Checked.ok_bind]
    refine .pure ⟨rfl, ?_⟩
    have hvisits := @Visits.of_range _ (HasNext (b.put (n * (byteStride / sizeofPair) * sizeofPair
      / 8) none)) (fun i => i * (byteStride / sizeofPair) * sizeofPair) n ?_ ?_
    · simpa only [element_offset hdvd, Nat.zero_mul] using hvisits
    · intro i hi
      refine Buf.load_eq (hlt (by omega)) ?_
      rw [Buf.put_cell_ne _ _ fun heq => absurd (element_word_inj hstride heq) (by omega)]
      exact hlinked i (by omega)
    · exact Buf.load_eq (hlt (by omega)) (Buf.put_cell_same _ _ _)

end Lists

section Agreement

variable {byteSize byteStride : Nat}

/-- A pair has one `next`. -/
theorem HasNext.unique {buf : Buf Word} (pairptr : Nat) (w w' : Word) (h : HasNext buf pairptr w)
    (h' : HasNext buf pairptr w') : w = w' := Except.ok.inj (h.symm.trans h')

/-- Both builders make the list of all elements in order, inside their buffers, whatever these held
before. -/
theorem linkedList_eq_longList (dvd : 16 ∣ byteStride) (pos : 0 < byteStride)
    (le : byteStride ≤ byteSize) (lt : byteSize < 2 ^ 31) (useExtrabit : Bool)
    {buf buf' : Buf Word} (hsize : buf.size = byteSize / 8) (hsize' : buf'.size = byteSize / 8) :
    let args := @LongListArgs.atMultiples byteSize byteStride true useExtrabit
      ((show 8 ∣ 16 by decide).trans dvd) (Nat.le_of_dvd pos dvd) lt (Nat.div_pos le pos) (.inl rfl)
    let offsets := (List.range (byteSize / byteStride)).map (· * byteStride)
    ∃ linked root long first, makeLinkedList byteSize byteStride buf = .ok (linked, root) ∧
      makeLongList args buf' = .ok (long, first) ∧
      (∀ l, Visits (HasNext linked) root l ↔ l = offsets) ∧
      (∀ l, Visits (HasNext long) first l ↔ l = offsets) ∧
      ∀ o ∈ offsets, o + 16 ≤ byteSize := by
  intro args offsets
  have hmode : AtMultiples true useExtrabit (byteSize / byteStride) := .inl rfl
  obtain ⟨⟨linked, root⟩, hlinked, -, hvisits⟩ := makeLinkedList_yields dvd pos le hsize
  obtain ⟨long, first, pairs, hlong, hshape⟩ := makeLongList_wellShaped
    ((show 8 ∣ 16 by decide).trans dvd) (Nat.le_of_dvd pos dvd) lt (Nat.div_pos le pos) hmode hsize'
  refine ⟨linked, root, long, first, hlinked, hlong, fun l => ?_, fun l => ?_, fun o ho => ?_⟩
  · constructor
    · intro h
      exact h.unique HasNext.unique hvisits
    · rintro rfl
      exact hvisits
  · have hpairs : pairs = offsets := hshape.ordered rfl
    constructor
    · intro h
      exact (h.unique HasNext.unique hshape.visits).trans hpairs
    · rintro rfl
      exact hpairs ▸ hshape.visits
  · obtain ⟨i, hi, rfl⟩ := List.mem_map.mp ho
    exact element_inside (Nat.le_of_dvd pos dvd) (List.mem_range.mp hi)

theorem linkedList_eq_longList_five :
    let args := @LongListArgs.atMultiples 170 32 true false (by decide) (by decide) (by decide)
      (by decide) (.inl rfl)
    ∃ linked root long first, makeLinkedList 170 32 (.alloc 21) = .ok (linked, root) ∧
      makeLongList args (.alloc 21) = .ok (long, first) ∧
      (∀ l, Visits (HasNext linked) root l ↔ l = [0, 32, 64, 96, 128]) ∧
      (∀ l, Visits (HasNext long) first l ↔ l = [0, 32, 64, 96, 128]) ∧
      ∀ o ∈ [0, 32, 64, 96, 128], o + 16 ≤ 170 :=
  linkedList_eq_longList (by decide) (by decide) (by decide) (by decide) false rfl rfl

end Agreement

end SoftwareDynamics.Memory

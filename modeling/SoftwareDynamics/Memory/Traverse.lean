import SoftwareDynamics.Memory.LinkedList

/-! The loops of `memory.cc` that follow a list.  What they time is left out. -/

namespace SoftwareDynamics.Memory

open ProofKit

section Loops

/-- `AssocRead` -/
def assocRead (buf : Buf Word) (readList : Word) (assoc : Nat) : Checked Word :=
  loop assoc (fun _ => loadNext buf) readList

/-- The body of the loops that are unrolled four times. -/
def unrolledRound (buf : Buf Word) (pairPtr : Word) : Checked Word := do
  let pairPtr ← loadNext buf pairPtr
  let pairPtr ← loadNext buf pairPtr
  let pairPtr ← loadNext buf pairPtr
  loadNext buf pairPtr

/-- `for (i = 0; i < nReads; i += 4)`, over `pairPtr`. -/
def unrolledLoop (buf : Buf Word) (pairPtr : Word) (nReads : Nat) : Checked Word :=
  loop ((nReads + 3) / 4) (fun _ => unrolledRound buf) pairPtr

/-- `ScrambledReads` -/
def scrambledReads (buf : Buf Word) (pairPtr : Word) (nReads : Nat) : Checked Word :=
  unrolledLoop buf pairPtr nReads

end Loops

section Reads

variable {buf : Buf Word} {first w : Word} {pairs : List Nat} {n : Nat}

/-- An unrolled loop goes on to the next multiple of four. -/
theorem unrolledLoop_eq (buf : Buf Word) (pairPtr : Word) (n : Nat) :
    unrolledLoop buf pairPtr n = assocRead buf pairPtr ((n + 3) / 4 * 4) := by
  have hround : unrolledRound buf = loop 4 fun _ => loadNext buf := by
    funext ptr
    simp only [unrolledRound, loop_succ, loop_zero, Checked.ok_bind, bind_assoc]
  rw [unrolledLoop, hround, loop_unroll, assocRead]

/-- Following `next` from a pointer leads to the pairs of its list one after the other, then to
`NULL`, and no further. -/
theorem assocRead_ok_iff (h : Visits (HasNext buf) first pairs) :
    assocRead buf first n = .ok w ↔ n ≤ pairs.length ∧ w = pairs[n]? := by
  induction n generalizing w with
  | zero =>
    rw [assocRead, loop_zero, Except.ok.injEq, h.head_eq, eq_comm]
    exact (and_iff_right (Nat.zero_le _)).symm
  | succ n ih =>
    rw [assocRead, loop_succ]
    constructor
    · intro hread
      obtain ⟨u, hbefore, hload⟩ := Checked.of_bind hread
      obtain ⟨hle, rfl⟩ := ih.mp hbefore
      by_cases hn : n < pairs.length
      · rw [List.getElem?_eq_getElem hn] at hload
        exact ⟨hn, HasNext.unique _ _ _ hload (h.next_getElem hn)⟩
      · rw [List.getElem?_eq_none (Nat.not_lt.mp hn)] at hload
        cases hload
    · rintro ⟨hn, rfl⟩
      have hbefore := ih.mpr ⟨Nat.le_of_succ_le hn, rfl⟩
      rw [assocRead] at hbefore
      rw [hbefore, Checked.ok_bind, List.getElem?_eq_getElem hn]
      exact h.next_getElem hn

theorem assocRead_ends_iff (h : Visits (HasNext buf) first pairs) :
    (∃ w, assocRead buf first n = .ok w) ↔ n ≤ pairs.length := by
  simp [assocRead_ok_iff h]

/-- What is read is the pairs from the first one on. -/
theorem assocRead_lt (h : Visits (HasNext buf) first pairs) {o : Nat} :
    assocRead buf first n = .ok (some o) ↔ ∃ hn : n < pairs.length, pairs[n] = o := by
  rw [assocRead_ok_iff h, eq_comm, List.getElem?_eq_some_iff]
  constructor
  · exact And.right
  · intro hn
    exact ⟨Nat.le_of_lt hn.1, hn⟩

theorem unrolledLoop_ends_iff (h : Visits (HasNext buf) first pairs) :
    (∃ w, unrolledLoop buf first n = .ok w) ↔ (n + 3) / 4 * 4 ≤ pairs.length := by
  rw [unrolledLoop_eq, assocRead_ends_iff h]

end Reads

end SoftwareDynamics.Memory

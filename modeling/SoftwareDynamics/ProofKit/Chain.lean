import Mathlib.Data.List.Nodup
import Mathlib.Data.List.Perm.Subperm

/-! Lists that are chained through pointers: the nodes that a pointer leads to, one after the other,
until a pointer is null. -/

namespace SoftwareDynamics.ProofKit

variable {α : Type} {next : α → Option α → Prop}

/-- The nodes from a pointer on, where `next a w` says that `w` is the pointer in node `a`. -/
inductive Visits (next : α → Option α → Prop) : Option α → List α → Prop
  | nil : Visits next none []
  | cons {a : α} {w : Option α} {l : List α} : next a w → Visits next w l →
      Visits next (some a) (a :: l)

namespace Visits

variable {w : Option α} {l : List α}

/-- A pointer leads to one list of nodes, where a node has one pointer. -/
theorem unique {l' : List α} (hnext : ∀ a w w', next a w → next a w' → w = w')
    (h : Visits next w l) (h' : Visits next w l') : l = l' := by
  induction h generalizing l' with
  | nil =>
    cases h'
    rfl
  | @cons a w l ha _ ih =>
    cases h' with
    | @cons _ w' l' ha' hrest =>
      obtain rfl := hnext a w w' ha ha'
      rw [ih hrest]

/-- What holds of the first node, and of the node after one of which it holds, holds of all
nodes. -/
theorem forall_mem {S : α → Prop} (h : Visits next w l) (hfirst : ∀ a ∈ w, S a)
    (hnext : ∀ a w, S a → next a w → ∀ b ∈ w, S b) : ∀ a ∈ l, S a := by
  induction h with
  | nil => nofun
  | @cons a w l ha _ ih =>
    have hS : S a := hfirst a rfl
    intro b hb
    rcases List.mem_cons.mp hb with rfl | hb
    · exact hS
    · exact ih (hnext a w hS ha) b hb

/-- A node is the first one, or some node points to it. -/
theorem eq_or_exists_next (h : Visits next w l) {a : α} (ha : a ∈ l) :
    w = some a ∨ ∃ b ∈ l, next b (some a) := by
  induction h with
  | nil => nomatch ha
  | @cons b w l hb _ ih =>
    rcases List.mem_cons.mp ha with rfl | ha
    · exact .inl rfl
    · rcases ih ha with rfl | ⟨c, hc, hnext⟩
      · exact .inr ⟨b, List.mem_cons_self, hb⟩
      · exact .inr ⟨c, List.mem_cons_of_mem b hc, hnext⟩

/-- The pointer leads to the first node. -/
theorem head_eq (h : Visits next w l) : w = l[0]? := by
  cases h with
  | nil => rfl
  | cons => rfl

/-- Each node points to the next one, and the last one has the null pointer. -/
theorem next_getElem (h : Visits next w l) {n : Nat} (hn : n < l.length) : next l[n] l[n + 1]? := by
  induction h generalizing n with
  | nil => exact absurd hn (Nat.not_lt_zero n)
  | @cons a w l ha hrest ih =>
    cases n with
    | zero =>
      rw [hrest.head_eq] at ha
      exact ha
    | succ n => exact ih (Nat.lt_of_succ_lt_succ hn)

/-- Nodes that point to each other in their order. -/
theorem of_range {p : Nat → α} {n : Nat} (hnext : ∀ i < n, next (p i) (some (p (i + 1))))
    (hlast : next (p n) none) : Visits next (some (p 0)) ((List.range (n + 1)).map p) := by
  induction n generalizing p with
  | zero => exact .cons hlast .nil
  | succ n ih =>
    have hrest := @ih (fun i => p (i + 1)) (fun i hi => hnext (i + 1) (by omega)) hlast
    rw [List.range_succ_eq_map, List.map_cons, List.map_map]
    exact .cons (hnext 0 (by omega)) hrest

end Visits

/-- Distinct nodes that are as many as their possible places take all of them, which are distinct
then. -/
theorem nodup_covers {p : Nat → α} {n : Nat} {l : List α} (hnodup : l.Nodup)
    (hlength : l.length = n)
    (h : ∀ a ∈ l, ∃ i < n, p i = a) :
    (∀ i < n, p i ∈ l) ∧ ∀ i < n, ∀ j < n, p i = p j → i = j := by
  have hsubset : l ⊆ (List.range n).map p := by
    intro a ha
    obtain ⟨i, hi, rfl⟩ := h a ha
    exact List.mem_map_of_mem (List.mem_range.mpr hi)
  have hperm : l.Perm ((List.range n).map p) := by
    apply (List.subperm_of_subset hnodup hsubset).perm_of_length_le
    rw [List.length_map, List.length_range]
    omega
  constructor
  · intro i hi
    exact hperm.mem_iff.mpr (List.mem_map_of_mem (List.mem_range.mpr hi))
  · intro i hi j hj heq
    exact List.inj_on_of_nodup_map (hperm.nodup_iff.mp hnodup) (List.mem_range.mpr hi)
      (List.mem_range.mpr hj) heq

end SoftwareDynamics.ProofKit

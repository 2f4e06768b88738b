import Mathlib.Algebra.Ring.Nat
import Mathlib.Data.List.Basic

/-! Tables of the elements of a list.  A line has a cell for each of its elements, blanks for the
cells that it lacks, a bar, what is shown of each element, and an ending. -/

namespace SoftwareDynamics.ProofKit

/-- What is the same on each line of a table, and how many cells a line has. -/
structure Table where
  width : Nat
  width_pos : 0 < width
  blank : List Char
  bar : List Char
  ending : List Char

namespace Table

variable {α : Type} (T : Table) (cell shown : α → List Char)

def line (row : List α) : List Char :=
  row.flatMap cell ++ (List.replicate (T.width - row.length) T.blank).flatten ++ T.bar ++
    row.flatMap shown ++ T.ending

/-- All lines.  Each of them but the last one is full. -/
def text (s : List α) : List Char :=
  (List.range ((s.length + (T.width - 1)) / T.width)).flatMap fun k =>
    T.line cell shown ((s.drop (T.width * k)).take T.width)

section Lines

theorem text_nil : T.text cell shown [] = [] := by
  have hpos := T.width_pos
  rw [text, List.length_nil, Nat.zero_add, Nat.div_eq_of_lt (by omega)]
  rfl

theorem text_eq {s : List α} (hs : s ≠ []) :
    T.text cell shown s =
      T.line cell shown (s.take T.width) ++ T.text cell shown (s.drop T.width) := by
  have hpos := T.width_pos
  have hlen := List.length_pos_iff.mpr hs
  have hlines : (s.length + (T.width - 1)) / T.width =
      ((s.drop T.width).length + (T.width - 1)) / T.width + 1 := by
    rw [List.length_drop, ← Nat.add_div_right _ hpos]
    by_cases hle : T.width ≤ s.length
    · congr 1
      omega
    · rw [Nat.div_eq_of_lt_le (k := 1) (by omega) (by omega),
        Nat.div_eq_of_lt_le (k := 1) (by omega) (by omega)]
  rw [text, hlines, List.range_succ_eq_map, List.flatMap_cons, List.flatMap_map, Nat.mul_zero,
    List.drop_zero, text]
  congr 1
  apply List.flatMap_congr
  intro k _
  rw [Nat.mul_succ, Nat.add_comm, ← List.drop_drop]

/-- Induction on the lines. -/
theorem lines_induction {motive : List α → Prop} (nil : motive [])
    (line : ∀ s, s ≠ [] → motive (s.drop T.width) → motive s) (s : List α) : motive s := by
  induction hn : s.length using Nat.strongRecOn generalizing s with
  | _ n ih =>
    by_cases hs : s = []
    · rw [hs]
      exact nil
    · have hpos := T.width_pos
      have hlen := List.length_pos_iff.mpr hs
      exact line s hs (ih _ (by rw [List.length_drop]; omega) _ rfl)

variable {T cell shown}

theorem text_congr {cell' shown' : α → List Char} {s : List α}
    (h : ∀ a ∈ s, cell a = cell' a ∧ shown a = shown' a) :
    T.text cell shown s = T.text cell' shown' s := by
  rw [text, text]
  apply List.flatMap_congr
  intro k _
  have hrow : ∀ a ∈ (s.drop (T.width * k)).take T.width, cell a = cell' a ∧ shown a = shown' a :=
    fun a ha => h a (List.mem_of_mem_drop (List.mem_of_mem_take ha))
  rw [line, line, List.flatMap_congr fun a ha => (hrow a ha).1,
    List.flatMap_congr fun a ha => (hrow a ha).2]

end Lines

section Cells

/-- Cells that are printed by their indices, with blanks behind the last element. -/
theorem flatMap_range_cells (f : Option α → List Char) {w : Nat} {row : List α}
    (h : row.length ≤ w) :
    (List.range w).flatMap (fun j => f row[j]?) =
      row.flatMap (fun a => f (some a)) ++ (List.replicate (w - row.length) (f none)).flatten := by
  induction w generalizing row with
  | zero =>
    obtain rfl := List.length_eq_zero_iff.mp (Nat.le_zero.mp h)
    rfl
  | succ w ih =>
    rw [List.range_succ_eq_map, List.flatMap_cons, List.flatMap_map]
    cases row with
    | nil =>
      have hrest := @ih [] (Nat.zero_le w)
      simp only [List.getElem?_nil, List.flatMap_nil, List.nil_append, List.length_nil,
        Nat.sub_zero] at hrest ⊢
      rw [hrest, List.replicate_succ, List.flatten_cons]
    | cons a row =>
      have hrest := @ih row (Nat.le_of_succ_le_succ h)
      simp only [List.getElem?_cons_zero, List.getElem?_cons_succ, hrest, List.flatMap_cons,
        List.length_cons, Nat.add_sub_add_right, List.append_assoc]

/-- The indices of a line that the list still has. -/
theorem takeWhile_range (w i n : Nat) :
    (List.range w).takeWhile (fun j => i + j < n) = List.range (min w (n - i)) := by
  have hsplit : w = min w (n - i) + (w - min w (n - i)) := by omega
  have hfirst : ∀ j ∈ List.range (min w (n - i)), decide (i + j < n) = true := by
    intro j hj
    have hlt := List.mem_range.mp hj
    exact decide_eq_true (by omega)
  conv_lhs => rw [hsplit, List.range_add]
  rw [List.takeWhile_append_of_pos hfirst]
  cases hrest : w - min w (n - i) with
  | zero => simp
  | succ k =>
    have hend : decide (i + (min w (n - i) + 0) < n) = false := decide_eq_false (by omega)
    rw [List.range_succ_eq_map, List.map_cons, List.takeWhile_cons, hend]
    exact List.append_nil _

end Cells

section Counting

variable {T cell shown}

/-- The characters of a table are those of its cells, those of what is shown, and others that do
not depend on the elements. -/
theorem countP_text (p : Char → Bool) (s : List α) :
    (T.text cell shown s).countP p = (s.flatMap cell).countP p + (s.flatMap shown).countP p +
      (T.text (fun _ => []) (fun _ => []) s).countP p := by
  induction s using T.lines_induction with
  | nil => simp [text_nil]
  | line s hs ih =>
    have hflat (f : α → List Char) :
        s.flatMap f = (s.take T.width).flatMap f ++ (s.drop T.width).flatMap f := by
      rw [← List.flatMap_append, List.take_append_drop]
    have hnone (l : List α) : l.flatMap (fun _ => ([] : List Char)) = [] := by simp
    rw [T.text_eq cell shown hs, T.text_eq _ _ hs, hflat cell, hflat shown]
    simp only [List.countP_append, ih, line, hnone, List.countP_nil]
    omega

theorem countP_eq_of_text_eq {cell' shown' : α → List Char} {s : List α}
    (h : T.text cell shown s = T.text cell' shown' s) (p : Char → Bool) :
    (s.flatMap cell).countP p + (s.flatMap shown).countP p =
      (s.flatMap cell').countP p + (s.flatMap shown').countP p := by
  have hcount := congrArg (List.countP p) h
  rw [@countP_text _ T cell, @countP_text _ T cell'] at hcount
  omega

end Counting

section Columns

/-- How many characters a full line has, where cells have `m`. -/
def lineWidth (m : Nat) : Nat := m * T.width + T.bar.length + T.width + T.ending.length

variable {T cell shown} {m : Nat}

theorem getElem?_flatMap_cells (hcell : ∀ a, (cell a).length = m) {s : List α} {i d : Nat}
    (hi : i < s.length) (hd : d < m) : (s.flatMap cell)[m * i + d]? = (cell s[i])[d]? := by
  induction s generalizing i with
  | nil => cases hi
  | cons a s ih =>
    rw [List.flatMap_cons]
    cases i with
    | zero => rw [Nat.mul_zero, Nat.zero_add, List.getElem?_append_left (by rwa [hcell])]; rfl
    | succ i =>
      have hle : m ≤ m * (i + 1) + d := by
        rw [Nat.mul_succ]
        omega
      have hrest : m * (i + 1) + d - m = m * i + d := by
        rw [Nat.mul_succ]
        omega
      rw [List.getElem?_append_right (by rwa [hcell]), hcell, hrest,
        ih (Nat.lt_of_succ_lt_succ hi)]
      rfl

theorem le_length_flatMap {f : α → List Char} {n : Nat} (h : ∀ a, n ≤ (f a).length) (s : List α) :
    n * s.length ≤ (s.flatMap f).length := by
  induction s with
  | nil => exact Nat.zero_le _
  | cons a s ih =>
    have ha := h a
    rw [List.flatMap_cons, List.length_append, List.length_cons, Nat.mul_succ]
    omega

/-- Texts that together are no longer than they must be are as short as they can be. -/
theorem length_eq_of_length_flatMap {f : α → List Char} {n : Nat} (h : ∀ a, n ≤ (f a).length)
    {s : List α} (hs : (s.flatMap f).length = n * s.length) : ∀ a ∈ s, (f a).length = n := by
  induction s with
  | nil => nofun
  | cons a s ih =>
    have ha := h a
    have hrest := le_length_flatMap h s
    rw [List.flatMap_cons, List.length_append, List.length_cons, Nat.mul_succ] at hs
    rw [List.forall_mem_cons]
    exact ⟨by omega, ih (by omega)⟩

theorem length_flatMap_of_length_eq {f : α → List Char} {n : Nat} (h : ∀ a, (f a).length = n)
    (s : List α) : (s.flatMap f).length = n * s.length := by
  induction s with
  | nil => rfl
  | cons a s ih => rw [List.flatMap_cons, List.length_append, h, ih, List.length_cons, Nat.mul_succ,
      Nat.add_comm]

/-- Where the cells are in a table with cells of one width. -/
theorem getElem?_text (hcell : ∀ a, (cell a).length = m) (hshown : ∀ a, (shown a).length = 1)
    {s : List α} {i d : Nat} (hi : i < s.length) (hd : d < m) :
    (T.text cell shown s)[T.lineWidth m * (i / T.width) + (m * (i % T.width) + d)]? =
      (cell s[i])[d]? := by
  have hpos := T.width_pos
  induction s using T.lines_induction generalizing i with
  | nil => cases hi
  | line s hs ih =>
    rw [T.text_eq cell shown hs]
    by_cases hrow : i < T.width
    · -- The cell is on the first line.
      have hlen : i < (s.take T.width).length := by
        rw [List.length_take]
        omega
      have hget := @getElem?_flatMap_cells _ cell m hcell _ i d hlen hd
      have hlt : m * i + d < ((s.take T.width).flatMap cell).length := by
        have hle := Nat.mul_le_mul_left m hlen
        rw [length_flatMap_of_length_eq hcell]
        rw [Nat.mul_succ] at hle
        omega
      rw [Nat.div_eq_of_lt hrow, Nat.mod_eq_of_lt hrow, Nat.mul_zero, Nat.zero_add, line]
      simp only [List.append_assoc]
      rw [List.getElem?_append_left hlt, hget, List.getElem_take]
    · -- The first line is full.
      have hwidth : (s.take T.width).length = T.width := List.length_take_of_le (by omega)
      have hline : (T.line cell shown (s.take T.width)).length = T.lineWidth m := by
        simp only [line, lineWidth, List.length_append, length_flatMap_of_length_eq hcell,
          length_flatMap_of_length_eq hshown, hwidth, Nat.sub_self, List.replicate_zero,
          List.flatten_nil, List.length_nil, Nat.one_mul, Nat.add_zero]
      have hdiv : i / T.width = (i - T.width) / T.width + 1 :=
        Nat.div_eq_sub_div hpos (by omega)
      have hmod : i % T.width = (i - T.width) % T.width := Nat.mod_eq_sub_mod (by omega)
      have hrest := ih (i := i - T.width) (by rw [List.length_drop]; omega)
      rw [hdiv, hmod, Nat.mul_succ, List.getElem?_append_right (by omega), hline,
        show T.lineWidth m * ((i - T.width) / T.width) + T.lineWidth m +
            (m * ((i - T.width) % T.width) + d) - T.lineWidth m =
          T.lineWidth m * ((i - T.width) / T.width) + (m * ((i - T.width) % T.width) + d) by omega,
        hrest, List.getElem_drop]
      simp only [Nat.add_sub_cancel' (show T.width ≤ i by omega)]

end Columns

end Table

end SoftwareDynamics.ProofKit

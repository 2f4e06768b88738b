import Mathlib.Data.List.Basic

/-! Texts that are printed: decimal numbers that stand before a separator, and what stands behind a
label at the head of a line. -/

namespace SoftwareDynamics.ProofKit

section Decimal

theorem toDigits_inj {m n : Nat} (h : Nat.toDigits 10 m = Nat.toDigits 10 n) : m = n := by
  have hvalue := congrArg (fun ds => Nat.ofDigitChars 10 ds 0) h
  rwa [Nat.ofDigitChars_ten_toDigits, Nat.ofDigitChars_ten_toDigits] at hvalue

theorem not_mem_toDigits {c : Char} (hc : ¬c.isDigit) (n : Nat) : c ∉ Nat.toDigits 10 n :=
  fun h => hc (Nat.isDigit_of_mem_toDigits (by decide) (by decide) h)

/-- A number is told apart from what follows it by a character that is no digit. -/
theorem toDigits_append_inj {c : Char} (hc : ¬c.isDigit) {m n : Nat} {rest rest' : List Char}
    (h : Nat.toDigits 10 m ++ c :: rest = Nat.toDigits 10 n ++ c :: rest') :
    m = n ∧ rest = rest' := by
  have hsplit := congrArg (List.splitOn c) h
  rw [List.splitOn_append_cons_self_of_not_mem (not_mem_toDigits hc m),
    List.splitOn_append_cons_self_of_not_mem (not_mem_toDigits hc n)] at hsplit
  obtain rfl := toDigits_inj (List.cons.inj hsplit).1
  exact ⟨rfl, (List.cons.inj (List.append_cancel_left h)).2⟩

end Decimal

section Labels

theorem splitOn_lines {ls : List (List Char)} (h : ∀ l ∈ ls, '\n' ∉ l) (rest : List Char) :
    (ls.flatMap (· ++ ['\n']) ++ rest).splitOn '\n' = ls ++ rest.splitOn '\n' := by
  induction ls with
  | nil => rfl
  | cons l ls ih =>
    have hrest := ih fun l' hl' => h l' (List.mem_cons_of_mem l hl')
    rw [List.flatMap_cons, List.append_assoc, List.append_assoc, List.singleton_append,
      List.splitOn_append_cons_self_of_not_mem (h l List.mem_cons_self), hrest]
    rfl

def upToQuote (cs : List Char) : List Char := cs.takeWhile (· ≠ '"')

theorem upToQuote_append {cs rest : List Char} (h : '"' ∉ cs) (hrest : upToQuote rest = []) :
    upToQuote (cs ++ rest) = cs := by
  have hall : ∀ c ∈ cs, decide (c ≠ '"') = true := fun c hc =>
    decide_eq_true (ne_of_mem_of_not_mem hc h)
  rw [upToQuote, List.takeWhile_append_of_pos hall]
  exact (congrArg (cs ++ ·) hrest).trans (List.append_nil cs)

/-- What stands behind a label, up to the next quote, in the lines that begin with the label. -/
def labelled (label text : List Char) : List (List Char) :=
  ((text.splitOn '\n').filterMap (·.dropPrefix? label)).map upToQuote

theorem labelled_append (label text text' : List Char) :
    labelled label (text ++ '\n' :: text') = labelled label text ++ labelled label text' := by
  rw [labelled, List.splitOn_append_cons_self, List.filterMap_append, List.map_append]
  rfl

theorem labelled_lines {ls : List (List Char)} (h : ∀ l ∈ ls, '\n' ∉ l)
    (label rest : List Char) :
    labelled label (ls.flatMap (· ++ ['\n']) ++ rest) =
      (ls.filterMap (·.dropPrefix? label)).map upToQuote ++ labelled label rest := by
  rw [labelled, splitOn_lines h, List.filterMap_append, List.map_append]
  rfl

end Labels

end SoftwareDynamics.ProofKit

import Mathlib.Data.Nat.Notation

/-! The grammar of JSON: which texts stand for which values.  Numbers and strings are kept as they
are written. -/

namespace SoftwareDynamics.ProofKit

/-- A JSON value.  The text of a string is what is between its quotes. -/
inductive Json
  | null
  | bool (b : Bool)
  | num (text : List Char)
  | str (text : List Char)
  | arr (elements : List Json)
  | obj (members : List (List Char × Json))

namespace Json

section Grammar

/-- The text is space, which may stand around values and names. -/
def IsSpace (cs : List Char) : Prop := ∀ c ∈ cs, c ∈ [' ', '\t', '\n', '\r']

instance (cs : List Char) : Decidable (IsSpace cs) := List.decidableBAll _ cs

def IsDigits (cs : List Char) : Prop := cs ≠ [] ∧ ∀ c ∈ cs, c.isDigit

/-- An integer without a sign, which starts with a zero only if it is zero. -/
inductive IsInt : List Char → Prop
  | zero : IsInt ['0']
  | pos {c : Char} {cs : List Char} : c.isDigit → c ≠ '0' → (∀ d ∈ cs, d.isDigit) → IsInt (c :: cs)

inductive IsFrac : List Char → Prop
  | none : IsFrac []
  | some {cs : List Char} : IsDigits cs → IsFrac ('.' :: cs)

inductive IsExp : List Char → Prop
  | none : IsExp []
  | some {e : Char} {sign cs : List Char} : e ∈ ['e', 'E'] → sign ∈ [[], ['+'], ['-']] →
      IsDigits cs → IsExp (e :: sign ++ cs)

inductive IsNumber : List Char → Prop
  | mk {minus int frac exp : List Char} : minus ∈ [[], ['-']] → IsInt int → IsFrac frac →
      IsExp exp → IsNumber (minus ++ int ++ frac ++ exp)

/-- The character may stand in a string for itself. -/
def IsPlain (c : Char) : Prop := c ≠ '"' ∧ c ≠ '\\' ∧ 0x20 ≤ c.toNat

instance (c : Char) : Decidable (IsPlain c) := inferInstanceAs (Decidable (_ ∧ _ ∧ _))

def IsPlainText (cs : List Char) : Prop := ∀ c ∈ cs, IsPlain c

instance (cs : List Char) : Decidable (IsPlainText cs) := List.decidableBAll _ cs

def IsHexDigit (c : Char) : Prop :=
  c.isDigit ∨ 'a' ≤ c ∧ c ≤ 'f' ∨ 'A' ≤ c ∧ c ≤ 'F'

/-- What may stand between the quotes of a string. -/
inductive IsString : List Char → Prop
  | nil : IsString []
  | plain {c : Char} {cs : List Char} : IsPlain c → IsString cs → IsString (c :: cs)
  | escape {c : Char} {cs : List Char} : c ∈ ['"', '\\', '/', 'b', 'f', 'n', 'r', 't'] →
      IsString cs → IsString ('\\' :: c :: cs)
  | unicode {hex cs : List Char} : hex.length = 4 → (∀ c ∈ hex, IsHexDigit c) → IsString cs →
      IsString ('\\' :: 'u' :: hex ++ cs)

mutual

/-- A text without space around it, and the value it stands for. -/
inductive Value : Json → List Char → Prop
  | null : Value .null "null".toList
  | false : Value (.bool .false) "false".toList
  | true : Value (.bool .true) "true".toList
  | num {cs : List Char} : IsNumber cs → Value (.num cs) cs
  | str {cs : List Char} : IsString cs → Value (.str cs) ('"' :: cs ++ ['"'])
  | emptyArr {ws : List Char} : IsSpace ws → Value (.arr []) ('[' :: ws ++ [']'])
  | arr {vs : List Json} {cs : List Char} : Elements vs cs → Value (.arr vs) ('[' :: cs ++ [']'])
  | emptyObj {ws : List Char} : IsSpace ws → Value (.obj []) ('{' :: ws ++ ['}'])
  | obj {ms : List (List Char × Json)} {cs : List Char} : Members ms cs →
      Value (.obj ms) ('{' :: cs ++ ['}'])

/-- A value with space around it. -/
inductive Element : Json → List Char → Prop
  | mk {v : Json} {ws cs ws' : List Char} : IsSpace ws → Value v cs → IsSpace ws' →
      Element v (ws ++ cs ++ ws')

inductive Elements : List Json → List Char → Prop
  | last {v : Json} {cs : List Char} : Element v cs → Elements [v] cs
  | more {v : Json} {vs : List Json} {cs cs' : List Char} : Element v cs → Elements vs cs' →
      Elements (v :: vs) (cs ++ ',' :: cs')

inductive Member : List Char × Json → List Char → Prop
  | mk {name : List Char} {v : Json} {ws ws' cs : List Char} : IsSpace ws → IsString name →
      IsSpace ws' → Element v cs →
      Member (name, v) (ws ++ ('"' :: name ++ ['"']) ++ ws' ++ ':' :: cs)

inductive Members : List (List Char × Json) → List Char → Prop
  | last {m : List Char × Json} {cs : List Char} : Member m cs → Members [m] cs
  | more {m : List Char × Json} {ms : List (List Char × Json)} {cs cs' : List Char} :
      Member m cs → Members ms cs' → Members (m :: ms) (cs ++ ',' :: cs')

end

/-- A JSON text, which is one value with space around it. -/
def Text (v : Json) (cs : List Char) : Prop := Element v cs

end Grammar

section Strings

theorem IsString.append {cs cs' : List Char} (h : IsString cs) (h' : IsString cs') :
    IsString (cs ++ cs') := by
  induction h with
  | nil => exact h'
  | plain hc _ ih => exact .plain hc ih
  | escape hc _ ih => exact .escape hc ih
  | @unicode hex cs hlen hhex _ ih =>
    rw [List.append_assoc]
    exact .unicode hlen hhex ih

theorem IsString.of_plain {cs : List Char} (h : IsPlainText cs) : IsString cs := by
  induction cs with
  | nil => exact .nil
  | cons c cs ih =>
    exact .plain (h c List.mem_cons_self) (ih fun d hd => h d (List.mem_cons_of_mem c hd))

theorem IsString.flatMap {α : Type} {f : α → List Char} {l : List α}
    (h : ∀ a ∈ l, IsString (f a)) : IsString (l.flatMap f) := by
  induction l with
  | nil => exact .nil
  | cons a l ih =>
    rw [List.flatMap_cons]
    exact (h a List.mem_cons_self).append (ih fun b hb => h b (List.mem_cons_of_mem a hb))

end Strings

section Numbers

/-- The digits of a number are digits of its base. -/
theorem mem_toDigits {b n : ℕ} (hb : 1 < b) {c : Char} (h : c ∈ Nat.toDigits b n) :
    ∃ d < b, c = Nat.digitChar d := by
  induction n using Nat.strongRecOn with
  | _ n ih =>
    by_cases hn : n < b
    · rw [Nat.toDigits_of_lt_base hn] at h
      exact ⟨n, hn, List.mem_singleton.mp h⟩
    · rw [Nat.toDigits_of_base_le hb (by omega)] at h
      rcases List.mem_append.mp h with h | h
      · exact ih (n / b) (Nat.div_lt_self (by omega) hb) h
      · exact ⟨n % b, Nat.mod_lt n (by omega), List.mem_singleton.mp h⟩

theorem toDigits_head {n : ℕ} (hn : 0 < n) : ∃ c cs, Nat.toDigits 10 n = c :: cs ∧ c ≠ '0' := by
  induction n using Nat.strongRecOn with
  | _ n ih =>
    by_cases hlt : n < 10
    · refine ⟨n.digitChar, [], Nat.toDigits_of_lt_base hlt, ?_⟩
      rw [ne_eq, Nat.digitChar_eq_zero]
      omega
    · obtain ⟨c, cs, hdigits, hc⟩ := ih (n / 10) (Nat.div_lt_self hn (by decide)) (by omega)
      refine ⟨c, cs ++ [(n % 10).digitChar], ?_, hc⟩
      rw [Nat.toDigits_of_base_le (by decide) (by omega), hdigits]
      rfl

theorem isInt_toDigits (n : ℕ) : IsInt (Nat.toDigits 10 n) := by
  by_cases hn : 0 < n
  · obtain ⟨c, cs, hdigits, hc⟩ := toDigits_head hn
    have hall (d : Char) (hd : d ∈ c :: cs) : d.isDigit := by
      rw [← hdigits] at hd
      exact Nat.isDigit_of_mem_toDigits (by decide) (by decide) hd
    rw [hdigits]
    exact .pos (hall c List.mem_cons_self) hc fun d hd => hall d (List.mem_cons_of_mem c hd)
  · obtain rfl : n = 0 := by omega
    exact .zero

theorem isNumber_toDigits (n : ℕ) : IsNumber (Nat.toDigits 10 n) := by
  have h : IsNumber ([] ++ Nat.toDigits 10 n ++ [] ++ []) :=
    .mk (by simp) (isInt_toDigits n) .none .none
  simpa using h

theorem isNumber_neg_toDigits (n : ℕ) : IsNumber ('-' :: Nat.toDigits 10 n) := by
  have h : IsNumber (['-'] ++ Nat.toDigits 10 n ++ [] ++ []) :=
    .mk (by simp) (isInt_toDigits n) .none .none
  simpa using h

end Numbers

section Arrays

/-- The elements of an array, where space stands before each of them. -/
theorem Elements.of_forall {α : Type} {value : α → Json} {text : α → List Char} {ws : List Char}
    (hws : IsSpace ws) (h : ∀ a, Value (value a) (text a)) {ws' : List Char} (hws' : IsSpace ws')
    (a : α) (l : List α) :
    Elements ((a :: l).map value) (ws' ++ text a ++ l.flatMap fun b => ',' :: ws ++ text b) := by
  have helement : Element (value a) (ws' ++ text a ++ []) := .mk hws' (h a) nofun
  rw [List.append_nil] at helement
  induction l generalizing a ws' with
  | nil =>
    rw [List.flatMap_nil, List.append_nil]
    exact .last helement
  | cons b l ih =>
    have hb : Element (value b) (ws ++ text b ++ []) := .mk hws (h b) nofun
    rw [List.append_nil] at hb
    have hmore := Elements.more helement (ih hws b hb)
    simpa only [List.map_cons, List.flatMap_cons, List.cons_append, List.append_assoc] using hmore

end Arrays

end Json

end SoftwareDynamics.ProofKit

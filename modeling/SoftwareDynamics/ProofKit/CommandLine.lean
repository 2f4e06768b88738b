import SoftwareDynamics.ProofKit.Bytes
import Mathlib.Algebra.Ring.Int.Defs
import Mathlib.Data.List.TakeWhile

/-! Command lines: the entries of an argument vector, of which there are as many as were given, and
the numbers that the C library reads from them. -/

namespace SoftwareDynamics.ProofKit

section Numbers

def isSpace (b : UInt8) : Bool := b = 0x20 || 0x09 ≤ b && b ≤ 0x0d

def isDecimal (b : UInt8) : Bool := 0x30 ≤ b && b ≤ 0x39

/-- The value of decimal digits. -/
def decimal (ds : Bytes) : Nat := ds.foldl (fun n b => 10 * n + (b.toNat - 0x30)) 0

/-- `strtol` in base 10: the number that stands behind space and a sign, and whether it is out of
the range of a `long`, whose nearest number it is then. -/
def strtol (s : Bytes) : Int × Bool :=
  let s := s.dropWhile isSpace
  let negative : Bool := s.head? = some 0x2d
  let s := if negative || s.head? = some 0x2b then s.tail else s
  let n : Int := decimal (s.takeWhile isDecimal)
  let n := if negative then -n else n
  if n < -2 ^ 63 then (-2 ^ 63, true) else if 2 ^ 63 ≤ n then (2 ^ 63 - 1, true) else (n, false)

/-- `atoi`, which cuts what `strtol` gives down to an `int`. -/
def atoi (s : Bytes) : Int32 := .ofInt (strtol s).1

theorem isSpace_of_isDecimal {b : UInt8} (h : isDecimal b) : isSpace b = false := by
  have hall : ∀ n < 256, isDecimal (.ofNat n) → isSpace (.ofNat n) = false := by
    decide +kernel
  have hb := hall b.toNat b.toNat_lt
  rw [UInt8.ofNat_toNat] at hb
  exact hb h

/-- A decimal numeral. -/
structure Numeral where
  digits : Bytes
  ne_nil : digits ≠ []
  decimals : ∀ b ∈ digits, isDecimal b
  deriving DecidableEq

namespace Numeral

def value (n : Numeral) : Nat := decimal n.digits

theorem not_mem_digits (n : Numeral) {b : UInt8} (h : isDecimal b = false) : b ∉ n.digits :=
  fun hmem => Bool.false_ne_true (h.symm.trans (n.decimals b hmem))

theorem strtol_digits (n : Numeral) (h : n.value < 2 ^ 63) :
    strtol n.digits = ((n.value : Int), false) := by
  have hhead : n.digits.head? ≠ some 0x2d ∧ n.digits.head? ≠ some 0x2b :=
    ⟨fun heq => n.not_mem_digits (by decide) (List.mem_of_head? heq),
      fun heq => n.not_mem_digits (by decide) (List.mem_of_head? heq)⟩
  have hspace : n.digits.dropWhile isSpace = n.digits := by
    obtain ⟨digits, hne, hdecimal⟩ := n
    cases digits with
    | nil => rfl
    | cons b bs =>
      have hb := isSpace_of_isDecimal (hdecimal b List.mem_cons_self)
      exact List.dropWhile_cons_of_neg (by rw [hb]; exact Bool.false_ne_true)
  have htake : n.digits.takeWhile isDecimal = n.digits :=
    List.takeWhile_eq_self_iff.mpr n.decimals
  have hvalue : ((decimal n.digits : Nat) : Int) < 2 ^ 63 := by
    have hnat : decimal n.digits < 2 ^ 63 := h
    omega
  simp only [strtol, hspace, hhead.1, hhead.2, decide_false, Bool.or_false, Bool.false_eq_true,
    if_false, htake]
  rw [if_neg (by omega), if_neg (by omega), value]

theorem atoi_digits (n : Numeral) (h : n.value < 2 ^ 63) : atoi n.digits = .ofNat n.value := by
  rw [atoi, n.strtol_digits h]
  rfl

end Numeral

end Numbers

section Entries

/-- How a program stops while it looks at its arguments: by an exit with a status, or at an entry
that is not there. -/
inductive Stop
  | exited (status : Int32)
  | outOfRange (index : Nat)
  deriving DecidableEq

@[simp] theorem Stop.ok_bind {α β : Type} (a : α) (f : α → Except Stop β) :
    (Except.ok a : Except Stop α) >>= f = f a := rfl

@[simp] theorem Stop.error_bind {α β : Type} (stop : Stop) (f : α → Except Stop β) :
    (Except.error stop : Except Stop α) >>= f = .error stop := rfl

variable {α : Type} {argv rest : List α} {i : Nat} {a : α}

/-- An entry of an argument vector. -/
def entry (argv : List α) (i : Nat) : Except Stop α :=
  match argv[i]? with
  | some a => .ok a
  | none => .error (.outOfRange i)

theorem entry_of_drop (h : argv.drop i = a :: rest) : entry argv i = .ok a := by
  have hget : argv[i]? = some a := by rw [← Nat.add_zero i, ← List.getElem?_drop, h]; rfl
  rw [entry, hget]

theorem lt_of_drop (h : argv.drop i = a :: rest) : i < argv.length :=
  List.drop_eq_nil_iff.not.mp (by rw [h]; exact List.cons_ne_nil a rest) |> Nat.lt_of_not_le

theorem drop_succ_of_drop (h : argv.drop i = a :: rest) : argv.drop (i + 1) = rest := by
  rw [← List.drop_drop, h]
  rfl

theorem drop_add_of_drop {args : List α} (h : argv.drop i = args ++ rest) :
    argv.drop (i + args.length) = rest := by
  rw [← List.drop_drop, h]
  exact List.drop_left

theorem not_lt_of_drop (h : argv.drop i = []) : ¬i < argv.length :=
  Nat.not_lt_of_le (List.drop_eq_nil_iff.mp h)

end Entries

end SoftwareDynamics.ProofKit

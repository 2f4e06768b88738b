import SoftwareDynamics.Network.DumpJson
import SoftwareDynamics.ProofKit.Table

/-! Which bytes `fhexdumpn` dumps as they are.  It looks at the index of a byte, not at the byte, to
tell whether it can be printed, and extends the sign of a byte before it prints its digits. -/

namespace SoftwareDynamics.Network

open ProofKit

section Model

/-- The lines of a dump, with cells of three characters. -/
def hexTable : Table where
  width := 8
  width_pos := by decide
  blank := [' ', ' ', ' ']
  bar := ['|']
  ending := ['|', '\\', 'n']

/-- The two hex digits of a byte, and a space. -/
def hexCell (c : UInt8) : List Char :=
  [Nat.digitChar (c.toNat / 16), Nat.digitChar (c.toNat % 16), ' ']

/-- A byte that can be printed, and a dot for any other one. -/
def printable (c : UInt8) : Char := if 0x20 ≤ c ∧ c ≤ 0x7e then .ofNat c.toNat else '.'

def hexValue (c : Char) : Nat :=
  if c.isDigit then c.toNat - '0'.toNat else c.toNat - 'a'.toNat + 10

/-- The bytes whose digits stand in the fixed columns of a dump of `n` bytes. -/
def readBack (n : Nat) (text : List Char) : Bytes :=
  (List.range n).map fun i =>
    let column := 36 * (i / 8) + 3 * (i % 8)
    .ofNat (16 * hexValue (text.getD column ' ') + hexValue (text.getD (column + 1) ' '))

/-- The dump shows each byte as two digits in its column and as itself behind the bar, and the bytes
can be read back from it. -/
def DumpsFaithfully (s : Bytes) : Prop :=
  fhexdumpn s = hexTable.text hexCell (fun c => [printable c]) s ∧
    readBack s.length (fhexdumpn s) = s

end Model

section Code

/-- What the source prints for an index. -/
def codeCell : Option UInt8 → List Char
  | none => [' ', ' ', ' ']
  | some c => percent02x c ++ [' ']

theorem hexdumpLine_cells (s : Bytes) (i : Nat) :
    ((List.range 8).flatMap fun j =>
      match s[i + j]? with
      | none => "   ".toList
      | some c => percent02x c ++ [' ']) =
      (List.range 8).flatMap fun j => codeCell ((s.drop i).take 8)[j]? := by
  have hgap : "   ".toList = [' ', ' ', ' '] := by decide
  apply List.flatMap_congr
  intro j hj
  rw [List.getElem?_take_of_lt (List.mem_range.mp hj), List.getElem?_drop, hgap]
  cases s[i + j]? <;> rfl

/-- An index is below eight, where no character can be printed. -/
theorem hexdumpLine_dots (s : Bytes) (i : Nat) :
    ((List.range 8).takeWhile (fun j => i + j < s.length)).map
      (fun j => if j < 0x20 || j > 0x7e then '.' else Char.ofNat (s.getD (i + j) 0).toNat) =
      ((s.drop i).take 8).flatMap fun _ => ['.'] := by
  have hdot : ∀ j ∈ List.range (min 8 (s.length - i)),
      (if j < 0x20 || j > 0x7e then '.' else Char.ofNat (s.getD (i + j) 0).toNat) = '.' := by
    intro j hj
    have hlt := List.mem_range.mp hj
    have hsmall : (decide (j < 0x20) || decide (j > 0x7e)) = true := by
      rw [decide_eq_true (show j < 0x20 by omega), Bool.true_or]
    exact if_pos hsmall
  rw [Table.takeWhile_range, List.map_congr_left hdot, List.map_const', List.length_range,
    ← List.map_eq_flatMap, List.map_const', List.length_take, List.length_drop]

/-- The line that the source prints is one of a table. -/
theorem hexdumpLine_eq (s : Bytes) (i : Nat) :
    hexdumpLine s i = hexTable.line (fun c => percent02x c ++ [' ']) (fun _ => ['.'])
      ((s.drop i).take 8) := by
  have hend : "|\\n".toList = ['|', '\\', 'n'] := by decide
  have hcells := Table.flatMap_range_cells codeCell (List.length_take_le 8 (s.drop i))
  have hparts := congrArg₂ (fun cells dots => cells ++ ['|'] ++ dots ++ "|\\n".toList)
    (hexdumpLine_cells s i) (hexdumpLine_dots s i)
  refine Eq.trans hparts ?_
  rw [hcells, hend]
  rfl

/-- What the source prints is a table whose cells have two digits or more, and which shows dots. -/
theorem fhexdumpn_eq (s : Bytes) :
    fhexdumpn s = hexTable.text (fun c => percent02x c ++ [' ']) (fun _ => ['.']) s :=
  List.flatMap_congr fun k _ => hexdumpLine_eq s (8 * k)

end Code

section Bytes

theorem percent02x_cell (c : UInt8) :
    (c < 0x80 → percent02x c ++ [' '] = hexCell c) ∧
    (¬c < 0x80 → (percent02x c).length = 8) ∧ 2 ≤ (percent02x c).length := by
  have hall : ∀ n < 256, (UInt8.ofNat n < 0x80 →
      percent02x (.ofNat n) ++ [' '] = hexCell (.ofNat n)) ∧
      (¬UInt8.ofNat n < 0x80 → (percent02x (.ofNat n)).length = 8) ∧
      2 ≤ (percent02x (.ofNat n)).length := by decide +kernel
  have hc := hall c.toNat c.toNat_lt
  rwa [UInt8.ofNat_toNat] at hc

theorem dot_not_mem_percent02x (c : UInt8) : '.' ∉ percent02x c ++ [' '] := by
  have hdigit : ∀ d < 16, '.' ≠ Nat.digitChar d := by decide
  unfold percent02x List.leftpad
  rw [List.mem_append, List.mem_append]
  rintro ((h | h) | h)
  · exact absurd (List.eq_of_mem_replicate h) (by decide)
  · obtain ⟨d, hd, heq⟩ := Json.mem_toDigits (by decide) h
    exact hdigit d hd heq
  · exact absurd h (by decide)

theorem dot_not_mem_hexCell (c : UInt8) : '.' ∉ hexCell c := by
  have hall : ∀ n < 256, '.' ∉ hexCell (.ofNat n) := by decide +kernel
  have hc := hall c.toNat c.toNat_lt
  rwa [UInt8.ofNat_toNat] at hc

theorem countP_dot_flatMap {cell : UInt8 → List Char} (h : ∀ c, '.' ∉ cell c) (s : Bytes) :
    (s.flatMap cell).countP (· == '.') = 0 := by
  rw [List.countP_eq_zero]
  intro c hc hdot
  obtain ⟨b, -, hb⟩ := List.mem_flatMap.mp hc
  rw [beq_iff_eq.mp hdot] at hb
  exact h b hb

/-- A byte whose sign bit is not set, and which is a dot or is shown as one. -/
def Dumpable (c : UInt8) : Prop := c < 0x20 ∨ c = 0x2e ∨ c = 0x7f

theorem dumpable_iff (c : UInt8) : Dumpable c ↔ c < 0x80 ∧ printable c = '.' := by
  have hall : ∀ n < 256, (UInt8.ofNat n < 0x20 ∨ UInt8.ofNat n = 0x2e ∨ UInt8.ofNat n = 0x7f) ↔
      UInt8.ofNat n < 0x80 ∧ printable (.ofNat n) = '.' := by decide +kernel
  have hc := hall c.toNat c.toNat_lt
  rwa [UInt8.ofNat_toNat] at hc

end Bytes

section Faithful

variable {s : Bytes}

theorem Dumpable.fhexdumpn_eq (h : ∀ c ∈ s, Dumpable c) :
    fhexdumpn s = hexTable.text hexCell (fun c => [printable c]) s := by
  rw [Network.fhexdumpn_eq]
  apply Table.text_congr
  intro c hc
  obtain ⟨hsign, hdot⟩ := (dumpable_iff c).mp (h c hc)
  rw [hdot]
  exact ⟨(percent02x_cell c).1 hsign, rfl⟩

/-- The sign bit of a byte makes the text longer, and a byte that is shown as itself takes a dot
from it. -/
theorem dumpable_of_fhexdumpn_eq
    (h : fhexdumpn s = hexTable.text hexCell (fun c => [printable c]) s) :
    ∀ c ∈ s, Dumpable c := by
  rw [fhexdumpn_eq] at h
  have hlength := Table.countP_eq_of_text_eq h fun _ => true
  have hdots := Table.countP_eq_of_text_eq h (· == '.')
  have hthree : (s.flatMap hexCell).length = 3 * s.length :=
    @Table.length_flatMap_of_length_eq _ hexCell 3 (fun _ => rfl) s
  simp only [List.countP_true, ← List.map_eq_flatMap, List.length_map, hthree] at hlength
  have hcells : ∀ c ∈ s, (percent02x c ++ [' ']).length = 3 :=
    Table.length_eq_of_length_flatMap (fun c => by
      have hle := (percent02x_cell c).2.2
      rw [List.length_append, List.length_singleton]
      omega) (by omega)
  have hcode := countP_dot_flatMap dot_not_mem_percent02x s
  have hspec := countP_dot_flatMap dot_not_mem_hexCell s
  have hall : (s.flatMap fun _ => ['.']).countP (· == '.') = s.length := by
    rw [← List.map_eq_flatMap, List.countP_map, List.countP_eq_length]
    exact fun _ _ => rfl
  rw [hcode, hspec, hall, ← List.map_eq_flatMap, List.countP_map, Nat.zero_add, Nat.zero_add,
    eq_comm, List.countP_eq_length] at hdots
  intro c hc
  rw [dumpable_iff]
  refine ⟨?_, beq_iff_eq.mp (hdots c hc)⟩
  by_contra hsign
  have hlen := hcells c hc
  rw [List.length_append, List.length_singleton, (percent02x_cell c).2.1 hsign] at hlen
  cases hlen

/-- The bytes stand in their columns. -/
theorem readBack_text (s : Bytes) :
    readBack s.length (hexTable.text hexCell (fun c => [printable c]) s) = s := by
  have hvalue : ∀ d < 16, hexValue (Nat.digitChar d) = d := by decide
  apply List.ext_getElem (by rw [readBack, List.length_map, List.length_range])
  intro i _ hi
  let text := hexTable.text hexCell (fun c => [printable c]) s
  have hcolumn {d : Nat} (hd : d < 3) := @Table.getElem?_text _ hexTable hexCell
    (fun c => [printable c]) 3 (fun _ => rfl) (fun _ => rfl) s i d hi hd
  have hhigh : text[36 * (i / 8) + 3 * (i % 8)]? = some (Nat.digitChar (s[i].toNat / 16)) :=
    hcolumn (show 0 < 3 by decide)
  have hlow : text[36 * (i / 8) + 3 * (i % 8) + 1]? = some (Nat.digitChar (s[i].toNat % 16)) :=
    hcolumn (show 1 < 3 by decide)
  have hbyte := s[i].toNat_lt
  simp only [readBack, List.getElem_map, List.getElem_range, List.getD_eq_getElem?_getD]
  rw [hhigh, hlow, Option.getD_some, Option.getD_some, hvalue _ (by omega),
    hvalue _ (Nat.mod_lt _ (by decide)), Nat.div_add_mod, UInt8.ofNat_toNat]

/-- A dump is faithful if and only if each byte is a control character, a dot or a delete. -/
theorem dumpsFaithfully_iff (s : Bytes) :
    DumpsFaithfully s ↔ ∀ c ∈ s, c < 0x20 ∨ c = 0x2e ∨ c = 0x7f := by
  constructor
  · intro h
    exact dumpable_of_fhexdumpn_eq h.1
  · intro h
    have htext := Dumpable.fhexdumpn_eq h
    exact ⟨htext, by rw [htext, readBack_text]⟩

/-- The name of a method is shown as dots, and a byte with its sign bit set has eight digits. -/
theorem not_dumpsFaithfully_ping :
    ¬DumpsFaithfully (ascii "ping") ∧ ¬DumpsFaithfully [0x80] ∧
    fhexdumpn [0x80] = "ffffff80                      |.|\\n".toList := by
  refine ⟨fun h => ?_, fun h => ?_, by decide⟩
  · have hp : Dumpable 0x70 := dumpable_of_fhexdumpn_eq h.1 0x70 (by decide)
    unfold Dumpable at hp
    exact absurd hp (by decide)
  · have hsign : Dumpable 0x80 := dumpable_of_fhexdumpn_eq h.1 0x80 (by decide)
    unfold Dumpable at hsign
    exact absurd hsign (by decide)

end Faithful

end SoftwareDynamics.Network

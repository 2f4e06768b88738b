import SoftwareDynamics.ProofKit.Json
import SoftwareDynamics.ProofKit.Text
import Mathlib.Data.List.TakeWhile

/-! A reader of JSON, which finds the value that a text stands for.  It may find a value in a text
that is not JSON, too. -/

namespace SoftwareDynamics.ProofKit.Json

section Reader

def skipSpace (cs : List Char) : List Char := cs.dropWhile (· ∈ [' ', '\t', '\n', '\r'])

/-- The character may stand in a number. -/
def inNumber (c : Char) : Bool := c.isDigit || c ∈ ['-', '+', '.', 'e', 'E']

/-- What stands before the quote that ends a string, and behind it. -/
def takeString : List Char → Option (List Char × List Char)
  | [] => none
  | '"' :: cs => some ([], cs)
  | '\\' :: c :: cs => (takeString cs).map fun (s, cs) => ('\\' :: c :: s, cs)
  | c :: cs => (takeString cs).map fun (s, cs) => (c :: s, cs)

mutual

/-- The value at the head of a text, and what stands behind it. -/
def takeValue : Nat → List Char → Option (Json × List Char)
  | 0, _ => none
  | n + 1, cs =>
    match cs.takeWhile inNumber, cs with
    | c :: text, _ => some (.num (c :: text), cs.dropWhile inNumber)
    | [], 'n' :: 'u' :: 'l' :: 'l' :: cs => some (.null, cs)
    | [], 'f' :: 'a' :: 'l' :: 's' :: 'e' :: cs => some (.bool false, cs)
    | [], 't' :: 'r' :: 'u' :: 'e' :: cs => some (.bool true, cs)
    | [], '"' :: cs => (takeString cs).map fun (s, cs) => (.str s, cs)
    | [], '[' :: cs =>
      match skipSpace cs with
      | ']' :: cs => some (.arr [], cs)
      | _ => (takeElements n cs).map fun (vs, cs) => (.arr vs, cs)
    | [], '{' :: cs =>
      match skipSpace cs with
      | '}' :: cs => some (.obj [], cs)
      | _ => (takeMembers n cs).map fun (ms, cs) => (.obj ms, cs)
    | [], _ => none

/-- The elements of an array up to its bracket. -/
def takeElements : Nat → List Char → Option (List Json × List Char)
  | 0, _ => none
  | n + 1, cs => do
    let (v, cs) ← takeValue n (skipSpace cs)
    match skipSpace cs with
    | ',' :: cs => (takeElements n cs).map fun (vs, cs) => (v :: vs, cs)
    | ']' :: cs => some ([v], cs)
    | _ => none

/-- The members of an object up to its brace. -/
def takeMembers : Nat → List Char → Option (List (List Char × Json) × List Char)
  | 0, _ => none
  | n + 1, cs =>
    match skipSpace cs with
    | '"' :: cs => do
      let (name, cs) ← takeString cs
      match skipSpace cs with
      | ':' :: cs => do
        let (v, cs) ← takeValue n (skipSpace cs)
        match skipSpace cs with
        | ',' :: cs => (takeMembers n cs).map fun (ms, cs) => ((name, v) :: ms, cs)
        | '}' :: cs => some ([(name, v)], cs)
        | _ => none
      | _ => none
    | _ => none

end

/-- The elements of an array whose bracket stands before the text, as far as they are complete. -/
def elementsFrom : Nat → List Char → List Json
  | 0, _ => []
  | n + 1, cs =>
    match takeValue (2 * cs.length) (skipSpace cs) with
    | some (v, cs) =>
      match skipSpace cs with
      | ',' :: cs => v :: elementsFrom n cs
      | _ => [v]
    | none => []

/-- The elements of the array at the head of a text, which may break off. -/
def elements (cs : List Char) : List Json :=
  match skipSpace cs with
  | '[' :: cs => elementsFrom cs.length cs
  | _ => []

def member? (name : List Char) : Json → Option Json
  | .obj ms => ms.lookup name
  | _ => none

/-- The value without the members of these names. -/
def without (names : List (List Char)) : Json → Json
  | .obj ms => .obj (ms.filter fun m => m.1 ∉ names)
  | v => v

def nat? (ds : List Char) : Option Nat :=
  if ds.all Char.isDigit then some (Nat.ofDigitChars 10 ds 0) else none

/-- The number, if it is an integer without an exponent. -/
def int? : Json → Option Int
  | .num ('-' :: ds) => (nat? ds).map fun n => -n
  | .num ds => (nat? ds).map fun n => n
  | _ => none

/-- No number goes on in the text. -/
def Stops (cs : List Char) : Prop := cs.takeWhile inNumber = []

end Reader

section Tokens

theorem skipSpace_append {ws : List Char} (h : IsSpace ws) (cs : List Char) :
    skipSpace (ws ++ cs) = skipSpace cs :=
  List.dropWhile_append_of_pos fun c hc => decide_eq_true (h c hc)

theorem Stops.append {ws cs : List Char} (hws : IsSpace ws) (hcs : Stops cs) :
    Stops (ws ++ cs) := by
  cases ws with
  | nil => exact hcs
  | cons c ws =>
    have hspace : ∀ c ∈ [' ', '\t', '\n', '\r'], inNumber c = false := by
      simp [inNumber]
    rw [Stops, List.cons_append, List.takeWhile_cons_of_neg]
    rw [hspace c (hws c List.mem_cons_self)]
    exact Bool.false_ne_true

theorem IsNumber.inNumber {cs : List Char} (h : IsNumber cs) : ∀ c ∈ cs, Json.inNumber c := by
  have digit {c : Char} (hc : c.isDigit) : Json.inNumber c := by
    rw [Json.inNumber, hc, Bool.true_or]
  obtain ⟨hminus, hint, hfrac, hexp⟩ := h
  simp only [List.forall_mem_append]
  refine ⟨⟨⟨?_, ?_⟩, ?_⟩, ?_⟩
  · have hall : ∀ minus ∈ [[], ['-']], ∀ c ∈ minus, Json.inNumber c := by
      simp [Json.inNumber]
    exact hall _ hminus
  · cases hint with
    | zero => simp [Json.inNumber]
    | pos hc _ hcs => exact List.forall_mem_cons.mpr ⟨digit hc, fun c h => digit (hcs c h)⟩
  · cases hfrac with
    | none => nofun
    | some hcs => exact List.forall_mem_cons.mpr ⟨rfl, fun c h => digit (hcs.2 c h)⟩
  · cases hexp with
    | none => nofun
    | some he hsign hcs =>
      have hall : ∀ e ∈ ['e', 'E'], Json.inNumber e := by simp [Json.inNumber]
      have hall' : ∀ sign ∈ [[], ['+'], ['-']], ∀ c ∈ sign, Json.inNumber c := by
        simp [Json.inNumber]
      simp only [List.cons_append, List.forall_mem_cons, List.forall_mem_append]
      exact ⟨hall _ he, hall' _ hsign, fun c h => digit (hcs.2 c h)⟩

theorem IsNumber.ne_nil {cs : List Char} (h : IsNumber cs) : cs ≠ [] := by
  obtain ⟨-, hint, -, -⟩ := h
  cases hint <;> simp

theorem takeString_cons {c : Char} (h : IsPlain c) (cs : List Char) :
    takeString (c :: cs) = (takeString cs).map fun (s, cs) => (c :: s, cs) := by
  rw [takeString]
  · exact h.1
  · exact fun _ _ hc => absurd hc h.2.1

theorem takeString_append {s : List Char} (h : IsPlainText s) (cs : List Char) :
    takeString (s ++ cs) = (takeString cs).map fun (s', cs) => (s ++ s', cs) := by
  induction s with
  | nil => exact Option.map_id.symm ▸ rfl
  | cons c s ih =>
    rw [List.cons_append, takeString_cons (h c List.mem_cons_self),
      ih fun d hd => h d (List.mem_cons_of_mem c hd), Option.map_map]
    rfl

theorem IsHexDigit.isPlain {c : Char} (h : IsHexDigit c) : IsPlain c := by
  have hle : 0x30 ≤ c.toNat := by
    rcases h with h | h | h
    · exact (Char.isDigit_iff_toNat.mp h).1
    · exact Nat.le_trans (by decide) (UInt32.le_iff_toNat_le.mp h.1)
    · exact Nat.le_trans (by decide) (UInt32.le_iff_toNat_le.mp h.1)
  refine ⟨?_, ?_, Nat.le_trans (by decide) hle⟩
  · rintro rfl
    exact absurd hle (by decide)
  · rintro rfl
    exact absurd h (by unfold IsHexDigit; decide)

/-- The quote behind a string ends it. -/
theorem IsString.take {s : List Char} (h : IsString s) (rest : List Char) :
    takeString (s ++ '"' :: rest) = some (s, rest) := by
  induction h with
  | nil => rfl
  | plain hc _ ih =>
    rw [List.cons_append, takeString_cons hc, ih]
    rfl
  | escape _ _ ih =>
    rw [List.cons_append, List.cons_append, takeString, ih]
    rfl
  | unicode _ hhex _ ih =>
    rw [List.cons_append, List.cons_append, List.append_assoc, List.cons_append, takeString,
      takeString_append fun c hc => (hhex c hc).isPlain, ih]
    rfl

theorem Value.head {v : Json} {cs : List Char} (h : Value v cs) :
    ∃ c cs', cs = c :: cs' ∧ c ∉ [' ', '\t', '\n', '\r', ']'] := by
  cases h with
  | num hnum =>
    obtain ⟨c, cs', rfl⟩ := List.exists_cons_of_ne_nil hnum.ne_nil
    have hall : ∀ c ∈ [' ', '\t', '\n', '\r', ']'], ¬Json.inNumber c := by
      simp [Json.inNumber]
    exact ⟨c, cs', rfl, fun hc => hall c hc (hnum.inNumber c List.mem_cons_self)⟩
  | _ => exact ⟨_, _, rfl, by decide⟩

end Tokens

section Values

/-- A value is taken from the head of a text, whatever stands behind it that does not go on a
number.  The fuel is enough as a character costs no more than two calls: one for the list that
starts at it, and one for the value. -/
def TakesValues (n : Nat) : Prop :=
  ∀ v cs rest, Value v cs → 2 * cs.length ≤ n → Stops rest →
    takeValue n (cs ++ rest) = some (v, rest)

def TakesElements (n : Nat) : Prop :=
  ∀ vs cs rest, Elements vs cs → 2 * cs.length + 1 ≤ n →
    takeElements n (cs ++ ']' :: rest) = some (vs, rest)

def TakesMembers (n : Nat) : Prop :=
  ∀ ms cs rest, Members ms cs → 2 * cs.length + 1 ≤ n →
    takeMembers n (cs ++ '}' :: rest) = some (ms, rest)

theorem IsNumber.take {cs rest : List Char} (h : IsNumber cs) (hrest : Stops rest) (n : Nat) :
    takeValue (n + 1) (cs ++ rest) = some (.num cs, rest) := by
  have htake : (cs ++ rest).takeWhile Json.inNumber = cs := by
    rw [List.takeWhile_append_of_pos h.inNumber, hrest, List.append_nil]
  have hdrop := List.takeWhile_append_dropWhile (p := Json.inNumber) (l := cs ++ rest)
  rw [htake] at hdrop
  obtain ⟨c, text, rfl⟩ := List.exists_cons_of_ne_nil h.ne_nil
  unfold takeValue
  simp only [htake, List.append_cancel_left hdrop]

theorem takeValue_str (n : Nat) (cs : List Char) :
    takeValue (n + 1) ('"' :: cs) = (takeString cs).map fun (s, cs) => (.str s, cs) := rfl

theorem takeValue_emptyArr (n : Nat) {cs rest : List Char} (h : skipSpace cs = ']' :: rest) :
    takeValue (n + 1) ('[' :: cs) = some (.arr [], rest) := by
  change (match skipSpace cs with
    | ']' :: cs => some (Json.arr [], cs)
    | _ => (takeElements n cs).map fun (vs, cs) => (Json.arr vs, cs)) = _
  rw [h]
  rfl

theorem takeValue_arr (n : Nat) {c : Char} {cs cs' : List Char} (h : skipSpace cs = c :: cs')
    (hc : c ≠ ']') :
    takeValue (n + 1) ('[' :: cs) = (takeElements n cs).map fun (vs, cs) => (.arr vs, cs) := by
  change (match skipSpace cs with
    | ']' :: cs => some (Json.arr [], cs)
    | _ => (takeElements n cs).map fun (vs, cs) => (Json.arr vs, cs)) = _
  rw [h]
  split
  · next heq => exact absurd (List.cons.inj heq).1 hc
  · rfl

theorem takeValue_emptyObj (n : Nat) {cs rest : List Char} (h : skipSpace cs = '}' :: rest) :
    takeValue (n + 1) ('{' :: cs) = some (.obj [], rest) := by
  change (match skipSpace cs with
    | '}' :: cs => some (Json.obj [], cs)
    | _ => (takeMembers n cs).map fun (ms, cs) => (Json.obj ms, cs)) = _
  rw [h]
  rfl

theorem takeValue_obj (n : Nat) {cs cs' : List Char} (h : skipSpace cs = '"' :: cs') :
    takeValue (n + 1) ('{' :: cs) = (takeMembers n cs).map fun (ms, cs) => (.obj ms, cs) := by
  change (match skipSpace cs with
    | '}' :: cs => some (Json.obj [], cs)
    | _ => (takeMembers n cs).map fun (ms, cs) => (Json.obj ms, cs)) = _
  rw [h]
  rfl

theorem skipSpace_value {v : Json} {ws cs : List Char} (h : Value v cs) (hws : IsSpace ws)
    (rest : List Char) : skipSpace (ws ++ cs ++ rest) = cs ++ rest := by
  obtain ⟨c, cs', rfl, hc⟩ := h.head
  rw [List.append_assoc, skipSpace_append hws, List.cons_append, skipSpace,
    List.dropWhile_cons_of_neg]
  intro hmem
  exact hc (List.mem_append_left [']'] (of_decide_eq_true hmem))

theorem Elements.head {vs : List Json} {cs : List Char} (h : Elements vs cs) (rest : List Char) :
    ∃ c cs', skipSpace (cs ++ rest) = c :: cs' ∧ c ≠ ']' := by
  have helement {v : Json} {cs : List Char} (h : Element v cs) (rest : List Char) :
      ∃ c cs', skipSpace (cs ++ rest) = c :: cs' ∧ c ≠ ']' := by
    obtain @⟨_, _, _, ws', hws, hv, -⟩ := h
    obtain ⟨c, cs', rfl, hc⟩ := hv.head
    refine ⟨c, cs' ++ (ws' ++ rest), ?_, ?_⟩
    · rw [List.append_assoc, skipSpace_value hv hws]
      rfl
    · rintro rfl
      exact hc (by decide)
  cases h with
  | last h => exact helement h rest
  | more h _ =>
    rw [List.append_assoc]
    exact helement h _

theorem Members.head {ms : List (List Char × Json)} {cs : List Char} (h : Members ms cs)
    (rest : List Char) : ∃ cs', skipSpace (cs ++ rest) = '"' :: cs' := by
  have hmember {m : List Char × Json} {cs : List Char} (h : Member m cs) (rest : List Char) :
      ∃ cs', skipSpace (cs ++ rest) = '"' :: cs' := by
    obtain ⟨hws, -, -, -⟩ := h
    simp only [List.append_assoc, List.cons_append, skipSpace_append hws]
    exact ⟨_, rfl⟩
  cases h with
  | last h => exact hmember h rest
  | more h _ =>
    rw [List.append_assoc]
    exact hmember h _

theorem takesValues_succ {n : Nat} (helements : TakesElements n) (hmembers : TakesMembers n) :
    TakesValues (n + 1) := by
  intro v cs rest hv hlen hrest
  cases hv with
  | null => rfl
  | false => rfl
  | true => rfl
  | num hnum => exact hnum.take hrest n
  | str hs =>
    rw [List.append_assoc, List.cons_append, takeValue_str, List.singleton_append, hs.take]
    rfl
  | emptyArr hws =>
    rw [List.append_assoc, List.cons_append]
    exact takeValue_emptyArr n (skipSpace_append hws _)
  | arr hvs =>
    obtain ⟨c, cs', hskip, hc⟩ := hvs.head (']' :: rest)
    simp only [List.cons_append, List.length_cons, List.length_append] at hlen
    rw [List.append_assoc, List.cons_append, List.singleton_append, takeValue_arr n hskip hc,
      helements _ _ _ hvs (by omega)]
    rfl
  | emptyObj hws =>
    rw [List.append_assoc, List.cons_append]
    exact takeValue_emptyObj n (skipSpace_append hws _)
  | obj hms =>
    obtain ⟨cs', hskip⟩ := hms.head ('}' :: rest)
    simp only [List.cons_append, List.length_cons, List.length_append] at hlen
    rw [List.append_assoc, List.cons_append, List.singleton_append, takeValue_obj n hskip,
      hmembers _ _ _ hms (by omega)]
    rfl

/-- A value is taken from an element, up to the space behind it. -/
theorem Element.take {n : Nat} (hvalues : TakesValues n) {v : Json} {cs rest : List Char}
    (h : Element v cs) (hlen : 2 * cs.length ≤ n) (hrest : Stops rest) :
    ∃ rest', takeValue n (skipSpace (cs ++ rest)) = some (v, rest') ∧
      skipSpace rest' = skipSpace rest := by
  obtain @⟨_, _, text, ws, hbefore, hv, hbehind⟩ := h
  simp only [List.length_append] at hlen
  refine ⟨ws ++ rest, ?_, skipSpace_append hbehind rest⟩
  rw [List.append_assoc, skipSpace_value hv hbefore]
  exact hvalues v text _ hv (by omega) (hrest.append hbehind)

theorem takesElements_succ {n : Nat} (hvalues : TakesValues n) (helements : TakesElements n) :
    TakesElements (n + 1) := by
  intro vs cs rest hvs hlen
  cases hvs with
  | last h =>
    obtain ⟨rest', htake, hskip⟩ :=
      h.take hvalues (by omega) (show Stops (']' :: rest) from rfl)
    rw [takeElements, htake, Option.bind_eq_bind, Option.bind_some]
    simp only [hskip]
    rfl
  | @more v vs cs cs' h hvs =>
    simp only [List.length_append, List.length_cons] at hlen
    obtain ⟨rest', htake, hskip⟩ :=
      h.take hvalues (by omega) (show Stops (',' :: (cs' ++ ']' :: rest)) from rfl)
    rw [List.append_assoc, List.cons_append, takeElements, htake, Option.bind_eq_bind,
      Option.bind_some]
    simp only [hskip]
    change (takeElements n (cs' ++ ']' :: rest)).map _ = _
    rw [helements vs cs' rest hvs (by omega)]
    rfl

/-- The name and the colon of a member stand before its value. -/
theorem Member.take {n : Nat} (hvalues : TakesValues n) {m : List Char × Json}
    {cs rest : List Char} (h : Member m cs) (hlen : 2 * cs.length ≤ n) (hrest : Stops rest) :
    takeMembers (n + 1) (cs ++ rest) =
      match skipSpace rest with
      | ',' :: cs => (takeMembers n cs).map fun (ms, cs) => (m :: ms, cs)
      | '}' :: cs => some ([m], cs)
      | _ => none := by
  obtain @⟨name, v, ws, ws', text, hws, hname, hws', h⟩ := h
  simp only [List.length_append, List.length_cons] at hlen
  obtain ⟨rest', htake, hskip⟩ := h.take hvalues (by omega) hrest
  have hquote (cs : List Char) : skipSpace ('"' :: cs) = '"' :: cs := rfl
  have hcolon (cs : List Char) : skipSpace (':' :: cs) = ':' :: cs := rfl
  simp only [List.append_assoc, List.cons_append, List.nil_append, takeMembers,
    skipSpace_append hws, hquote, hname.take, Option.bind_eq_bind, Option.bind_some,
    skipSpace_append hws', hcolon, htake, hskip]

theorem takesMembers_succ {n : Nat} (hvalues : TakesValues n) (hmembers : TakesMembers n) :
    TakesMembers (n + 1) := by
  intro ms cs rest hms hlen
  cases hms with
  | last h =>
    rw [h.take hvalues (by omega) (show Stops ('}' :: rest) from rfl)]
    rfl
  | @more m ms cs cs' h hms =>
    simp only [List.length_append, List.length_cons] at hlen
    rw [List.append_assoc, List.cons_append,
      h.take hvalues (by omega) (show Stops (',' :: (cs' ++ '}' :: rest)) from rfl)]
    change (takeMembers n (cs' ++ '}' :: rest)).map _ = _
    rw [hmembers ms cs' rest hms (by omega)]
    rfl

/-- The reader finds the value of every text, by induction on its fuel. -/
theorem takes (n : Nat) : TakesValues n ∧ TakesElements n ∧ TakesMembers n := by
  induction n with
  | zero =>
    refine ⟨fun v cs rest hv hlen => ?_, fun vs cs rest _ hlen => ?_, fun ms cs rest _ hlen => ?_⟩
    · obtain ⟨c, cs', rfl, -⟩ := hv.head
      rw [List.length_cons] at hlen
      omega
    · omega
    · omega
  | succ n ih =>
    obtain ⟨hvalues, helements, hmembers⟩ := ih
    exact ⟨takesValues_succ helements hmembers, takesElements_succ hvalues helements,
      takesMembers_succ hvalues hmembers⟩

end Values

section Documents

theorem Elements.ne_nil {vs : List Json} {cs : List Char} (h : Elements vs cs) : cs ≠ [] := by
  rintro rfl
  obtain ⟨c, cs', hskip, -⟩ := h.head []
  cases hskip

/-- The elements are found, whether or not the bracket stands behind them. -/
theorem Elements.elementsFrom {n : Nat} {vs : List Json} {cs rest : List Char}
    (h : Elements vs cs) (hlen : cs.length ≤ n) (hrest : Stops rest)
    (hend : ∀ cs', skipSpace rest ≠ ',' :: cs') : Json.elementsFrom n (cs ++ rest) = vs := by
  induction n generalizing vs cs with
  | zero => exact absurd (List.length_eq_zero_iff.mp (Nat.le_zero.mp hlen)) h.ne_nil
  | succ n ih =>
    cases h with
    | @last v _ h =>
      obtain ⟨rest', htake, hskip⟩ :=
        h.take (takes (2 * (cs ++ rest).length)).1 (by rw [List.length_append]; omega) hrest
      rw [Json.elementsFrom, htake]
      dsimp only
      split
      · next heq => exact absurd (hskip.symm.trans heq) (hend _)
      · rfl
    | @more v vs cs cs' h hvs =>
      simp only [List.length_append, List.length_cons] at hlen
      obtain ⟨rest', htake, hskip⟩ := h.take (takes (2 * (cs ++ ',' :: (cs' ++ rest)).length)).1
        (by rw [List.length_append]; omega) (show Stops (',' :: (cs' ++ rest)) from rfl)
      rw [List.append_assoc, List.cons_append, Json.elementsFrom, htake]
      dsimp only
      rw [hskip]
      exact congrArg (v :: ·) (ih hvs (by omega))

theorem Elements.elements {vs : List Json} {cs rest : List Char} (h : Elements vs cs)
    (hrest : Stops rest) (hend : ∀ cs', skipSpace rest ≠ ',' :: cs') :
    Json.elements ('[' :: (cs ++ rest)) = vs :=
  h.elementsFrom (by rw [List.length_append]; omega) hrest hend

theorem nat?_toDigits (n : Nat) : nat? (Nat.toDigits 10 n) = some n := by
  rw [nat?, if_pos, Nat.ofDigitChars_ten_toDigits]
  exact List.all_eq_true.mpr fun _ h => Nat.isDigit_of_mem_toDigits (by decide) (by decide) h

theorem int?_toDigits (n : Nat) : int? (.num (Nat.toDigits 10 n)) = some (n : Int) := by
  rw [int?, nat?_toDigits]
  · rfl
  · intro ds h
    exact not_mem_toDigits (by decide) n (h ▸ List.mem_cons_self)

theorem int?_neg_toDigits (n : Nat) :
    int? (.num ('-' :: Nat.toDigits 10 n)) = some (-(n : Int)) := by
  rw [int?, nat?_toDigits]
  rfl

end Documents

end SoftwareDynamics.ProofKit.Json

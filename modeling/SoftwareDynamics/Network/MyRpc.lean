import SoftwareDynamics.Network.Sys

/-! The body of a write request, as `my_rpc.cc` lays it out: the length of the key, three bytes of
padding, the length of the value in network byte order, the key and the value. -/

namespace SoftwareDynamics.Network

open ProofKit Prog

namespace WriteRequest

/-- `sizeof(WriteRequest)` -/
def size : Nat := 8

/-- The bytes of a request, whose padding may be anything. -/
def layout (pad : Octets 3) (key : Bytes) (keyLen : UInt8) (value : Bytes) (valueLen : UInt32) :
    Bytes :=
  keyLen :: pad.1 ++ beBytes 4 valueLen.toNat ++ key.take keyLen.toNat ++ value.take valueLen.toNat

/-- Builds a request, unless the value is too long. -/
def make (key : Bytes) (keyLen : UInt8) (value : Bytes) (valueLen : UInt32) :
    Sys (Option Bytes) := do
  if valueLen > 5 * 256 * 1024 then return none
  let pad ← sys (.indeterminate 3)
  return some (layout pad key keyLen value valueLen)

section Parse

variable {m : Type → Type} [Monad m] (load : Nat → m UInt8)

def keyLen : m UInt8 := load 0

def valueLen : m UInt32 := do
  let b4 ← load 4
  let b5 ← load 5
  let b6 ← load 6
  let b7 ← load 7
  pure (.ofNat (beNat [b4, b5, b6, b7]))

def fullLen : m Nat := do
  let keyLen ← keyLen load
  let valueLen ← valueLen load
  pure (size + keyLen.toNat + valueLen.toNat)

/-- Whether a body is a request of exactly its length.  Otherwise the source returns `NULL`. -/
def fromBody (bodyLen : Nat) : m Bool := do
  let requestLen ← fullLen load
  pure (requestLen = bodyLen)

/-- The `n` bytes from `start` on. -/
def copy (start : Nat) : (n : Nat) → m (Octets n)
  | 0 => pure ⟨[], rfl⟩
  | n + 1 => do
    let b ← load start
    let rest ← copy (start + 1) n
    pure ⟨b :: rest.1, by rw [List.length_cons, rest.2]⟩

def key : m Key := do
  let keyLen ← keyLen load
  let bs ← copy load size keyLen.toNat
  pure ⟨bs.1, by rw [bs.2]; exact keyLen.toNat_lt⟩

def value : m Value := do
  let keyLen ← keyLen load
  let valueLen ← valueLen load
  let bs ← copy load (size + keyLen.toNat) valueLen.toNat
  pure ⟨bs.1, by rw [bs.2]; exact valueLen.toNat_lt⟩

end Parse

section Spec

variable {m : Type → Type} [Monad m] {load : Nat → m UInt8} {body : Bytes}

/-- The length of the value that a body announces. -/
def announced (body : Bytes) : UInt32 := .ofNat (beNat ((body.drop 4).take 4))

/-- The key and the value of a body of exactly the length that it announces. -/
def parse (body : Bytes) : Option (Key × Value) :=
  if h : size + (body.headD 0).toNat + (announced body).toNat = body.length then
    some (⟨(body.drop size).take (body.headD 0).toNat, by
        have hlt := (body.headD 0).toNat_lt
        rw [List.length_take]
        omega⟩,
      ⟨body.drop (size + (body.headD 0).toNat), by
        have hlt := (announced body).toNat_lt
        rw [List.length_drop]
        omega⟩)
  else none

/-- A request that has been built is parsed as what it has been built from. -/
theorem parse_layout (pad : Octets 3) {key value : Bytes} {keyLen : UInt8} {valueLen : UInt32}
    (hkey : keyLen.toNat ≤ key.length) (hvalue : valueLen.toNat ≤ value.length) :
    ∃ (k : Key) (v : Value), parse (layout pad key keyLen value valueLen) = some (k, v) ∧
      k.1 = key.take keyLen.toNat ∧ v.1 = value.take valueLen.toNat := by
  have hbytes : layout pad key keyLen value valueLen = (keyLen :: pad.1) ++
      (beBytes 4 valueLen.toNat ++ (key.take keyLen.toNat ++ value.take valueLen.toNat)) := by
    simp [layout]
  have hpad : (keyLen :: pad.1).length = 4 := by rw [List.length_cons, pad.2]
  have hannounced : announced (layout pad key keyLen value valueLen) = valueLen := by
    rw [announced, hbytes, List.drop_left' hpad, List.take_left' (beBytes_length _ _),
      beNat_beBytes valueLen.toNat_lt, UInt32.ofNat_toNat]
  have hhead : (layout pad key keyLen value valueLen).headD 0 = keyLen := rfl
  have hkeyTake : (key.take keyLen.toNat).length = keyLen.toNat := List.length_take_of_le hkey
  have hdrop : (layout pad key keyLen value valueLen).drop size =
      key.take keyLen.toNat ++ value.take valueLen.toNat := by
    rw [hbytes, ← List.append_assoc]
    exact List.drop_left' (by rw [List.length_append, hpad, beBytes_length]; rfl)
  have hlen : size + ((layout pad key keyLen value valueLen).headD 0).toNat +
      (announced (layout pad key keyLen value valueLen)).toNat =
      (layout pad key keyLen value valueLen).length := by
    rw [hannounced, hhead, hbytes]
    simp only [List.length_append, hpad, beBytes_length, hkeyTake, List.length_take_of_le hvalue,
      size]
    omega
  refine ⟨_, _, dif_pos hlen, ?_, ?_⟩
  · dsimp only
    rw [hdrop, hhead, List.take_left' hkeyTake]
  · dsimp only
    rw [← List.drop_drop, hdrop, hhead, List.drop_left' hkeyTake]

/-- `load` gives the bytes of `body`. -/
def Loads (load : Nat → m UInt8) (body : Bytes) : Prop :=
  ∀ i (h : i < body.length), load i = pure body[i]

theorem keyLen_eq (hload : Loads load body) (h : size ≤ body.length) :
    keyLen load = pure (body.headD 0) := by
  cases body with
  | nil => cases h
  | cons b body => exact hload 0 (Nat.zero_lt_succ _)

variable [LawfulMonad m]

theorem length_slice {start n : Nat} (h : start + n ≤ body.length) :
    ((body.drop start).take n).length = n := by
  apply List.length_take_of_le
  rw [List.length_drop]
  omega

theorem copy_eq (hload : Loads load body) {start n : Nat} (h : start + n ≤ body.length) :
    copy load start n = pure ⟨(body.drop start).take n, length_slice h⟩ := by
  induction n generalizing start with
  | zero => simp [copy]
  | succ n ih =>
    have hcons :
        body[start] :: (body.drop (start + 1)).take n = (body.drop start).take (n + 1) := by
      rw [List.drop_eq_getElem_cons (show start < body.length by omega), List.take_succ_cons]
    rw [copy, hload start (by omega), pure_bind, ih (by omega), pure_bind]
    congr 2

theorem valueLen_eq (hload : Loads load body) (h : size ≤ body.length) :
    valueLen load = pure (announced body) := by
  have hlen : 8 ≤ body.length := h
  rw [valueLen, hload 4 (by omega), hload 5 (by omega), hload 6 (by omega), hload 7 (by omega)]
  simp only [pure_bind]
  rw [announced, List.drop_eq_getElem_cons (show 4 < body.length by omega),
    List.drop_eq_getElem_cons (show 5 < body.length by omega),
    List.drop_eq_getElem_cons (show 6 < body.length by omega),
    List.drop_eq_getElem_cons (show 7 < body.length by omega)]
  rfl

theorem fromBody_eq (hload : Loads load body) (h : size ≤ body.length) :
    fromBody load body.length = pure (parse body).isSome := by
  rw [fromBody, fullLen, keyLen_eq hload h, pure_bind, valueLen_eq hload h, pure_bind, pure_bind]
  congr 1
  unfold parse
  split_ifs with hlen
  · exact decide_eq_true hlen
  · exact decide_eq_false hlen

theorem key_eq (hload : Loads load body) (h : size ≤ body.length) {k : Key} {v : Value}
    (hparse : parse body = some (k, v)) : key load = pure k := by
  unfold parse at hparse
  split_ifs at hparse with hlen
  cases hparse
  rw [key, keyLen_eq hload h, pure_bind, copy_eq hload (by omega), pure_bind]

theorem value_eq (hload : Loads load body) (h : size ≤ body.length) {k : Key} {v : Value}
    (hparse : parse body = some (k, v)) : value load = pure v := by
  unfold parse at hparse
  split_ifs at hparse with hlen
  cases hparse
  rw [value, keyLen_eq hload h, pure_bind, valueLen_eq hload h, pure_bind,
    copy_eq hload (by omega), pure_bind]
  congr 2
  exact List.take_of_length_le (by rw [List.length_drop]; omega)

end Spec

end WriteRequest

end SoftwareDynamics.Network

import SoftwareDynamics.Network.WriteBody

/-! `WriteRequest::Make` and `FromBody` are inverse to each other, up to the padding that `Make`
leaves as it finds it. -/

namespace SoftwareDynamics.Network

open ProofKit Prog

namespace WriteRequest

/-- The length of the longest value that `Make` accepts. -/
def maxValueLen : Nat := 5 * 256 * 1024

section Make

/-- The requests that `Make` may build differ in their padding. -/
theorem make_returns_iff {key value : Bytes} {keyLen : UInt8} {valueLen : UInt32}
    (hvalue : valueLen.toNat ≤ maxValueLen) {r : Option Bytes} :
    (make key keyLen value valueLen).Returns r ↔
      ∃ pad, r = some (layout pad key keyLen value valueLen) := by
  have hshort : ¬ valueLen > 5 * 256 * 1024 := by
    rw [gt_iff_lt, UInt32.lt_iff_toNat_lt, Nat.not_lt]
    exact hvalue
  have hmake : make key keyLen value valueLen = .call (.indeterminate 3) fun pad =>
      .ret (some (layout pad key keyLen value valueLen)) := by
    simp only [make, hshort, if_false]
    rfl
  rw [hmake, returns_call_iff]
  exact exists_congr fun pad => returns_ret_iff

end Make

section Body

variable {body : Bytes}

/-- `FromBody` accepts the body, and the slices for the key and the value, which fill it behind its
fixed part one after the other, are these. -/
structure Sliced (body key value : Bytes) : Prop where
  fullLen : fullLen (checkedLoad body) = .ok body.length
  accepted : fromBody (checkedLoad body) body.length = .ok true
  keyLen : ∃ n, WriteRequest.keyLen (checkedLoad body) = .ok n ∧ n.toNat = key.length
  valueLen : ∃ n, WriteRequest.valueLen (checkedLoad body) = .ok n ∧ n.toNat = value.length
  keySlice : ∃ k, WriteRequest.key (checkedLoad body) = .ok k ∧ k.1 = key
  valueSlice : ∃ v, WriteRequest.value (checkedLoad body) = .ok v ∧ v.1 = value
  ends : size + key.length + value.length = body.length

theorem announced_toNat (body : Bytes) :
    (announced body).toNat = beNat ((body.drop 4).take 4) := by
  have hlt := beNat_lt ((body.drop 4).take 4)
  have hle : ((body.drop 4).take 4).length ≤ 4 := List.length_take_le 4 _
  have hpow := Nat.pow_le_pow_right (show 0 < 256 by decide) hle
  exact UInt32.toNat_ofNat_of_lt' (Nat.lt_of_lt_of_le hlt hpow)

theorem parse_isSome_iff :
    (parse body).isSome ↔ size + (body.headD 0).toNat + (announced body).toNat = body.length := by
  unfold parse
  split
  · next h => exact iff_of_true rfl h
  · next h => exact iff_of_false Bool.false_ne_true h

/-- The length of a request does not overflow. -/
theorem fullLen_lt (body : Bytes) :
    size + (body.headD 0).toNat + (announced body).toNat < 2 ^ 64 := by
  have hkey := (body.headD 0).toNat_lt
  have hvalue := (announced body).toNat_lt
  rw [size]
  omega

theorem sliced_of_parse {k : Key} {v : Value} (hparse : parse body = some (k, v)) :
    Sliced body k.1 v.1 := by
  have hlen := parse_isSome_iff.mp (hparse ▸ rfl : (parse body).isSome)
  have hsize : size ≤ body.length := by omega
  have hload := checkedLoad_loads body
  have hkv := hparse
  unfold parse at hkv
  rw [dif_pos hlen] at hkv
  cases hkv
  have hkey : ((body.drop size).take (body.headD 0).toNat).length = (body.headD 0).toNat := by
    rw [List.length_take, List.length_drop]
    omega
  have hvalue :
      (body.drop (size + (body.headD 0).toNat)).length = (announced body).toNat := by
    rw [List.length_drop]
    omega
  constructor
  · rw [WriteRequest.fullLen, keyLen_eq hload hsize, pure_bind, valueLen_eq hload hsize, pure_bind,
      hlen]
    rfl
  · rw [fromBody_eq hload hsize, hparse]
    rfl
  · exact ⟨_, keyLen_eq hload hsize, hkey.symm⟩
  · exact ⟨_, valueLen_eq hload hsize, hvalue.symm⟩
  · exact ⟨_, key_eq hload hsize hparse, rfl⟩
  · exact ⟨_, value_eq hload hsize hparse, rfl⟩
  · rw [hkey, hvalue]
    exact hlen

/-- The slices of a body are laid out as they are in the body. -/
theorem layout_of_parse {k : Key} {v : Value} (hparse : parse body = some (k, v))
    (pad : Octets 3) :
    layout pad k.1 (body.headD 0) v.1 (announced body) = body.take 1 ++ pad.1 ++ body.drop 4 := by
  have hlen := parse_isSome_iff.mp (hparse ▸ rfl : (parse body).isSome)
  unfold parse at hparse
  rw [dif_pos hlen] at hparse
  cases hparse
  rw [size] at hlen
  have hhead : body.take 1 = [body.headD 0] := by
    cases body with
    | nil => simp at hlen
    | cons b body => rfl
  have hvalueLen : beBytes 4 (announced body).toNat = (body.drop 4).take 4 := by
    have hfour : ((body.drop 4).take 4).length = 4 := by
      rw [List.length_take, List.length_drop]
      omega
    have hbytes := beBytes_beNat ((body.drop 4).take 4)
    rwa [hfour, ← announced_toNat] at hbytes
  have hvalue : (body.drop (size + (body.headD 0).toNat)).take (announced body).toNat =
      body.drop (size + (body.headD 0).toNat) := by
    apply List.take_of_length_le
    rw [List.length_drop, size]
    omega
  rw [layout, hvalueLen, hvalue, hhead, List.take_take, Nat.min_self, ← List.drop_drop, size,
    List.append_assoc, List.append_assoc, List.take_append_drop]
  rw [show (8 : Nat) = 4 + 4 from rfl, ← List.drop_drop, List.take_append_drop]
  rfl

end Body

section Codec

variable {key value body : Bytes}

/-- Whatever padding a run of `Make` finds, `FromBody` accepts the request, and its slices are the
key and the value. -/
theorem sliced_of_make (hkey : key.length ≤ 255) (hvalue : value.length ≤ maxValueLen)
    {r : Option Bytes}
    (hr : (make key (.ofNat key.length) value (.ofNat value.length)).Returns r) :
    ∃ built, r = some built ∧ Sliced built key value := by
  have hkeyLen : (UInt8.ofNat key.length).toNat = key.length :=
    UInt8.toNat_ofNat_of_lt' (Nat.lt_succ_of_le hkey)
  have hvalueLen : (UInt32.ofNat value.length).toNat = value.length :=
    UInt32.toNat_ofNat_of_lt' (Nat.lt_of_le_of_lt hvalue (by decide))
  obtain ⟨pad, rfl⟩ := (make_returns_iff (hvalueLen.symm ▸ hvalue)).mp hr
  obtain ⟨k, v, hparse, hk, hv⟩ := parse_layout pad (Nat.le_of_eq hkeyLen) (Nat.le_of_eq hvalueLen)
  rw [hkeyLen, List.take_length] at hk
  rw [hvalueLen, List.take_length] at hv
  have hsliced := sliced_of_parse hparse
  rw [hk, hv] at hsliced
  exact ⟨_, rfl, hsliced⟩

/-- From the slices of a body that `FromBody` accepts, `Make` builds the body again, up to the
padding. -/
theorem make_of_parse {k : Key} {v : Value} (hparse : parse body = some (k, v))
    (hvalue : (announced body).toNat ≤ maxValueLen) {r : Option Bytes}
    (hr : (make k.1 (body.headD 0) v.1 (announced body)).Returns r) :
    ∃ pad : Octets 3, r = some (body.take 1 ++ pad.1 ++ body.drop 4) := by
  obtain ⟨pad, rfl⟩ := (make_returns_iff hvalue).mp hr
  exact ⟨pad, by rw [layout_of_parse hparse]⟩

/-- What `Make` builds, `FromBody` takes apart.  Of the bodies with a fixed part, `FromBody` accepts
exactly those of the announced length, and from their slices `Make` builds them again, up to the
padding. -/
theorem make_fromBody (hkey : key.length ≤ 255) (hvalue : value.length ≤ maxValueLen)
    (hsize : size ≤ body.length) :
    (∀ r, (make key (.ofNat key.length) value (.ofNat value.length)).Returns r →
      ∃ built, r = some built ∧ Sliced built key value) ∧
    let n := (body.headD 0).toNat
    let m := beNat ((body.drop 4).take 4)
    size + n + m < 2 ^ 64 ∧
    (∃ accepted, fromBody (checkedLoad body) body.length = .ok accepted ∧
      (accepted = true ↔ body.length = size + n + m)) ∧
    (body.length = size + n + m → m ≤ maxValueLen →
      ∃ k kn v vn, Sliced body k v ∧ keyLen (checkedLoad body) = .ok kn ∧
        valueLen (checkedLoad body) = .ok vn ∧ ∀ r, (make k kn v vn).Returns r →
          ∃ pad : Octets 3, r = some (body.take 1 ++ pad.1 ++ body.drop 4)) := by
  refine ⟨fun r => sliced_of_make hkey hvalue, ?_⟩
  intro n m
  have hannounced : (announced body).toNat = m := announced_toNat body
  have hload := checkedLoad_loads body
  have haccepts : (parse body).isSome ↔ body.length = size + n + m := by
    rw [parse_isSome_iff, hannounced]
    exact eq_comm
  refine ⟨hannounced ▸ fullLen_lt body, ⟨_, fromBody_eq hload hsize, haccepts⟩, fun hlen hm => ?_⟩
  obtain ⟨⟨k, v⟩, hparse⟩ := Option.isSome_iff_exists.mp (haccepts.mpr hlen)
  exact ⟨k.1, _, v.1, _, sliced_of_parse hparse, keyLen_eq hload hsize, valueLen_eq hload hsize,
    fun r => make_of_parse hparse (hannounced.symm ▸ hm)⟩

theorem make_fromBody_three :
    (∀ r, (make [1, 2] 2 [3] 1).Returns r → ∃ built, r = some built ∧ Sliced built [1, 2] [3]) ∧
    let body : Bytes := [2, 9, 9, 9, 0, 0, 0, 1, 1, 2, 3]
    let n := (body.headD 0).toNat
    let m := beNat ((body.drop 4).take 4)
    size + n + m < 2 ^ 64 ∧
    (∃ accepted, fromBody (checkedLoad body) body.length = .ok accepted ∧
      (accepted = true ↔ body.length = size + n + m)) ∧
    (body.length = size + n + m → m ≤ maxValueLen →
      ∃ k kn v vn, Sliced body k v ∧ keyLen (checkedLoad body) = .ok kn ∧
        valueLen (checkedLoad body) = .ok vn ∧ ∀ r, (make k kn v vn).Returns r →
          ∃ pad : Octets 3, r = some (body.take 1 ++ pad.1 ++ body.drop 4)) :=
  make_fromBody (by decide) (by decide) (by decide)

end Codec

end WriteRequest

end SoftwareDynamics.Network

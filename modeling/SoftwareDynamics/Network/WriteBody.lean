import SoftwareDynamics.Network.RoundTrip
import SoftwareDynamics.ProofKit.Checked

/-! Which bytes of a request's body `handle_rpc_write` looks at, where a load from behind the body
is a fault. -/

namespace SoftwareDynamics.Network

open ProofKit Prog

section Loads

/-- The part of `handle_rpc_write` that looks at the body: the key and the value, unless the body is
no write request. -/
def takeRequest {m : Type → Type} [Monad m] (load : Nat → m UInt8) (bodyLen : Nat) :
    m (Option (Key × Value)) := do
  if ← WriteRequest.fromBody load bodyLen then
    let key ← WriteRequest.key load
    let value ← WriteRequest.value load
    return some (key, value)
  else return none

/-- A byte of a body. -/
def checkedLoad (body : Bytes) (i : Nat) : Checked UInt8 :=
  match body[i]? with
  | some b => .ok b
  | none => .error .outOfBounds

/-- The handler looks at nothing but the body of a request. -/
def LooksInside (request : Frame) : Prop :=
  Yields (takeRequest (checkedLoad request.data) request.mark.dataLen.toNat) fun _ => True

theorem handleRpcWrite_eq_takeRequest (connection : Connection) (request : Frame) (logFd : Fd) :
    handleRpcWrite connection request logFd =
      takeRequest (loadBody request.data) request.mark.dataLen.toNat >>= fun
        | some (key, value) =>
          sys (.emplace key value) >>= fun _ => respond connection request [] .Ok logFd
        | none => respond connection request [] .BadArg logFd := by
  simp only [handleRpcWrite, takeRequest, bind_assoc]
  congr 1
  funext ok
  cases ok with
  | false => rfl
  | true => simp only [if_true, bind_assoc, pure_bind]

theorem checkedLoad_loads (body : Bytes) : WriteRequest.Loads (checkedLoad body) body := by
  intro i hi
  rw [checkedLoad, List.getElem?_eq_getElem hi]
  rfl

theorem checkedLoad_lt {body : Bytes} {i : Nat} {b : UInt8} (h : checkedLoad body i = .ok b) :
    i < body.length := by
  by_contra hi
  rw [checkedLoad, List.getElem?_eq_none (Nat.not_lt.mp hi)] at h
  cases h

/-- The length of the value is at the end of the fixed part of a body. -/
theorem WriteRequest.size_le_of_valueLen {body : Bytes} {n : UInt32}
    (h : valueLen (checkedLoad body) = .ok n) : size ≤ body.length := by
  obtain ⟨_, -, h⟩ := Checked.of_bind h
  obtain ⟨_, -, h⟩ := Checked.of_bind h
  obtain ⟨_, -, h⟩ := Checked.of_bind h
  obtain ⟨_, hload, -⟩ := Checked.of_bind h
  exact checkedLoad_lt hload

/-- Both lengths are looked at before they are compared with the length of the body, so that exactly
the bodies that have the fixed part of a write request are safe. -/
theorem looksInside_iff (request : Frame) :
    LooksInside request ↔ WriteRequest.size ≤ request.data.length := by
  constructor
  · rintro ⟨_, h, -⟩
    obtain ⟨_, hfrom, -⟩ := Checked.of_bind h
    obtain ⟨_, hfull, -⟩ := Checked.of_bind hfrom
    obtain ⟨_, -, hfull⟩ := Checked.of_bind hfull
    obtain ⟨_, hvalueLen, -⟩ := Checked.of_bind hfull
    exact WriteRequest.size_le_of_valueLen hvalueLen
  · intro hlen
    have hload := checkedLoad_loads request.data
    rw [LooksInside, takeRequest, request.dataLen_eq, WriteRequest.fromBody_eq hload hlen,
      pure_bind]
    cases hparse : WriteRequest.parse request.data with
    | none => exact .pure trivial
    | some kv =>
      obtain ⟨key, value⟩ := kv
      rw [Option.isSome_some, if_pos rfl, WriteRequest.key_eq hload hlen hparse, pure_bind,
        WriteRequest.value_eq hload hlen hparse, pure_bind]
      exact .pure trivial

/-- A write request without a body. -/
theorem looksInside_empty : ∃ (request : Frame) (now : UInt64) (e : Endpoint Keystore),
    request.data = [] ∧ request.is "write" ∧
    Exec (streamEnv ⟨5, 0, 0, 0, 0⟩ 4 request.toBytes) (rpcRecvReq ⟨5, 0, 0, 0, 0⟩) (.fresh ∅)
      (some (request.reqReceived now)) e ∧ ¬ LooksInside (request.reqReceived now) := by
  let request := Frame.request (ascii "write") [] (by decide)
  have hstream : (Endpoint.fresh (∅ : Keystore)).got ++ Frame.stream [request] = request.toBytes :=
    List.append_nil _
  obtain ⟨_, e, hexec, ⟨now, rfl⟩, -⟩ :=
    (wp_recvStamped_cons hstream).exists_exec (endpointEnv_total _ _ _)
  refine ⟨request, now, e, rfl, by decide, hexec, ?_⟩
  rintro ⟨_, h, -⟩
  cases h

end Loads

end SoftwareDynamics.Network

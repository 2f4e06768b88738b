import SoftwareDynamics.Network.PortableLog

/-! Sending in the build without `bsr`, where the loop of `ilog2` may not end.  Both senders are
written over the logarithm that they take, which has the result `none` while its loop goes on. -/

namespace SoftwareDynamics.Network

open ProofKit Prog

section Model

/-- `rpc_send_req` with a logarithm of its own. -/
def rpcSendReqBy (logarithm : UInt32 → Sys (Option UInt8)) (connection : Connection) (body : Bytes)
    (parentRpc : UInt32) (method : CString) (logFd : Fd) (nextRpcId : UInt32) :
    Sys (Option (Option Unit × UInt32)) := do
  let checksum ← sys (.indeterminate 4)
  let resLenLog ← sys (.indeterminate 1)
  let pad ← sys (.indeterminate 4)
  let some reqSendTimeUs ← nowUsec | return some (none, nextRpcId + 1)
  let some reqLenLog ← logarithm (.ofNat (body.length + markAndHeader)) | return none
  let message : RPCMessage := {
    mark := {
      signature := MARK_SIGNATURE
      headerLen := .ofNat headerSize
      dataLen := .ofNat body.length
      checksum := ofLe32 checksum.1 }
    header := {
      rpcId := nextRpcId
      parent := parentRpc
      reqSendTimeUs
      reqRecvTimeUs := 0
      resSendTimeUs := 0
      resRecvTimeUs := 0
      clientIp := connection.clientIp
      serverIp := connection.serverIp
      clientPort := connection.clientPort
      serverPort := connection.serverPort
      reqLenLog
      resLenLog := resLenLog.1.headD 0
      messageType := .Request
      method := .fit 8 method.bytes
      status := .Ok
      pad }
    body := none }
  return some (← sendMessage connection message body logFd, nextRpcId + 1)

/-- `rpc_send_resp` with a logarithm of its own. -/
def rpcSendRespBy (logarithm : UInt32 → Sys (Option UInt8)) (connection : Connection)
    (request : RPCMessage) (body : Bytes) (status : RpcStatus) (logFd : Fd) :
    Sys (Option (Option Unit)) := do
  let some resSendTimeUs ← nowUsec | return some none
  let some resLenLog ← logarithm (.ofNat (body.length + markAndHeader)) | return none
  let message : RPCMessage := {
    mark := { request.mark with dataLen := .ofNat body.length }
    header := { request.header with
      resSendTimeUs
      resLenLog
      messageType := .Response
      status }
    body := some body }
  return some (← sendMessage connection message body logFd)

/-- The logarithm of the portable build, as far as it has come before the given number of tests. -/
def portableLog (fuel : Nat) (x : UInt32) : Sys (Option UInt8) := pure (portableIlog2 fuel x)

/-- The loop of the portable `ilog2` ends. -/
def LogEnds (x : UInt32) : Prop := ∃ fuel, (portableIlog2 fuel x).isSome

/-- Whatever its calls come to, sending a request of this body does not stay in the loop. -/
def RequestEnds (body : Bytes) : Prop :=
  ∀ connection parentRpc method logFd nextRpcId, ∃ fuel, ¬Returns
    (rpcSendReqBy (portableLog fuel) connection body parentRpc method logFd nextRpcId) none

/-- Whatever its calls come to, sending a response of this body does not stay in the loop. -/
def ResponseEnds (body : Bytes) : Prop :=
  ∀ connection request status logFd, ∃ fuel, ¬Returns
    (rpcSendRespBy (portableLog fuel) connection request body status logFd) none

end Model

section Builds

/-- With the logarithm that is found by `bsr`, the senders are those of the other build. -/
theorem rpcSendReqBy_bsr (connection : Connection) (body : Bytes) (parentRpc : UInt32)
    (method : CString) (logFd : Fd) (nextRpcId : UInt32) :
    rpcSendReqBy (fun x => some <$> ilog2 x) connection body parentRpc method logFd nextRpcId =
      some <$> rpcSendReq connection body parentRpc method logFd nextRpcId := by
  unfold rpcSendReqBy rpcSendReq
  simp only [map_eq_pure_bind, bind_assoc, pure_bind]
  congr 1
  funext checksum
  congr 1
  funext resLenLog
  congr 1
  funext pad
  congr 1
  funext now
  cases now with
  | none => rfl
  | some now => simp only [bind_assoc, pure_bind, sendRequest, Body.length_bytes]

theorem rpcSendRespBy_bsr (connection : Connection) (request : RPCMessage) (body : Bytes)
    (status : RpcStatus) (logFd : Fd) :
    rpcSendRespBy (fun x => some <$> ilog2 x) connection request body status logFd =
      some <$> rpcSendResp connection request body status logFd := by
  unfold rpcSendRespBy rpcSendResp
  simp only [map_eq_pure_bind, bind_assoc, pure_bind]
  congr 1
  funext now
  cases now with
  | none => rfl
  | some now => simp only [bind_assoc]

end Builds

section Ending

variable {fuel : Nat} {connection : Connection} {body : Bytes} {logFd : Fd}

/-- Only up to `2^31` does a power of two that fits reach the number. -/
theorem logEnds_iff {x : UInt32} : LogEnds x ↔ x.toNat ≤ 2 ^ 31 := by
  constructor
  · rintro ⟨fuel, hsome⟩
    rw [portableIlog2, Option.isSome_map] at hsome
    obtain ⟨t, ht⟩ := Option.isSome_iff_exists.mp hsome
    by_contra hx
    exact never_portableIlog2 (Nat.not_le.mp hx) ⟨fuel, ht⟩
  · intro hx
    obtain ⟨t, fuel, ht⟩ := ends_portableIlog2 hx
    exact ⟨fuel, by rw [portableIlog2, ht]; rfl⟩

theorem returns_indeterminate (n : Nat) : Returns (sys (.indeterminate n)) (.fit n []) :=
  .perform trivial

theorem returns_nowUsec : Returns nowUsec (some 0) :=
  Open.exec_nowUsec ⟨fun _ _ _ => trivial, fun _ _ => trivial, fun _ => trivial,
    fun _ _ => trivial⟩

/-- How long the logarithm takes is all that decides whether a request is sent. -/
theorem returns_rpcSendReqBy {parentRpc : UInt32} {method : CString} {nextRpcId : UInt32} :
    Returns (rpcSendReqBy (portableLog fuel) connection body parentRpc method logFd nextRpcId)
      none ↔ portableIlog2 fuel (.ofNat (body.length + markAndHeader)) = none := by
  constructor
  · intro h
    obtain ⟨checksum, -, h⟩ := returns_bind_iff.mp h
    obtain ⟨resLenLog, -, h⟩ := returns_bind_iff.mp h
    obtain ⟨pad, -, h⟩ := returns_bind_iff.mp h
    obtain ⟨now, -, h⟩ := returns_bind_iff.mp h
    cases now with
    | none => cases returns_ret_iff.mp h
    | some now =>
      obtain ⟨reqLenLog, hlog, h⟩ := returns_bind_iff.mp h
      cases reqLenLog with
      | none => exact (returns_ret_iff.mp hlog).symm
      | some reqLenLog =>
        obtain ⟨sent, -, h⟩ := returns_bind_iff.mp h
        cases returns_ret_iff.mp h
  · intro hnone
    have hlog : Returns (portableLog fuel (.ofNat (body.length + markAndHeader))) none :=
      returns_ret_iff.mpr hnone.symm
    refine returns_bind_iff.mpr ⟨_, returns_indeterminate 4, ?_⟩
    refine returns_bind_iff.mpr ⟨_, returns_indeterminate 1, ?_⟩
    refine returns_bind_iff.mpr ⟨_, returns_indeterminate 4, ?_⟩
    refine returns_bind_iff.mpr ⟨_, returns_nowUsec, ?_⟩
    exact returns_bind_iff.mpr ⟨none, hlog, returns_ret_iff.mpr rfl⟩

theorem returns_rpcSendRespBy {request : RPCMessage} {status : RpcStatus} :
    Returns (rpcSendRespBy (portableLog fuel) connection request body status logFd) none ↔
      portableIlog2 fuel (.ofNat (body.length + markAndHeader)) = none := by
  constructor
  · intro h
    obtain ⟨now, -, h⟩ := returns_bind_iff.mp h
    cases now with
    | none => cases returns_ret_iff.mp h
    | some now =>
      obtain ⟨resLenLog, hlog, h⟩ := returns_bind_iff.mp h
      cases resLenLog with
      | none => exact (returns_ret_iff.mp hlog).symm
      | some resLenLog =>
        obtain ⟨sent, -, h⟩ := returns_bind_iff.mp h
        cases returns_ret_iff.mp h
  · intro hnone
    have hlog : Returns (portableLog fuel (.ofNat (body.length + markAndHeader))) none :=
      returns_ret_iff.mpr hnone.symm
    refine returns_bind_iff.mpr ⟨_, returns_nowUsec, ?_⟩
    exact returns_bind_iff.mpr ⟨none, hlog, returns_ret_iff.mpr rfl⟩

/-- A request is sent, or fails to be, just when the loop ends for its length in 32 bits. -/
theorem requestEnds_iff_logEnds :
    RequestEnds body ↔ LogEnds (.ofNat (body.length + markAndHeader)) := by
  constructor
  · intro h
    obtain ⟨fuel, hreturns⟩ := h ⟨0, 0, 0, 0, 0⟩ 0 ⟨[], by decide⟩ 0 0
    exact ⟨fuel, Option.isSome_iff_ne_none.mpr (mt returns_rpcSendReqBy.mpr hreturns)⟩
  · rintro ⟨fuel, hsome⟩ connection parentRpc method logFd nextRpcId
    exact ⟨fuel, mt returns_rpcSendReqBy.mp (Option.isSome_iff_ne_none.mp hsome)⟩

theorem responseEnds_iff_logEnds :
    ResponseEnds body ↔ LogEnds (.ofNat (body.length + markAndHeader)) := by
  constructor
  · intro h
    obtain ⟨fuel, hreturns⟩ := h ⟨0, 0, 0, 0, 0⟩ (Frame.request [] [] (by decide)).message .Ok 0
    exact ⟨fuel, Option.isSome_iff_ne_none.mpr (mt returns_rpcSendRespBy.mpr hreturns)⟩
  · rintro ⟨fuel, hsome⟩ connection request status logFd
    exact ⟨fuel, mt returns_rpcSendRespBy.mp (Option.isSome_iff_ne_none.mp hsome)⟩

theorem logEnds_length_iff :
    LogEnds (.ofNat (body.length + markAndHeader)) ↔
      (body.length + markAndHeader) % 2 ^ 32 ≤ 2 ^ 31 := by
  rw [logEnds_iff, UInt32.toNat_ofNat']

/-- The loop ends just up to `2^31`, and so does sending a message, by the low 32 bits of its
length. -/
theorem portableIlog2_ends_iff (x : UInt32) (body : Bytes) :
    (LogEnds x ↔ x.toNat ≤ 2 ^ 31) ∧
      (RequestEnds body ↔ (body.length + markAndHeader) % 2 ^ 32 ≤ 2 ^ 31) ∧
      (ResponseEnds body ↔ (body.length + markAndHeader) % 2 ^ 32 ≤ 2 ^ 31) :=
  ⟨logEnds_iff, requestEnds_iff_logEnds.trans logEnds_length_iff,
    responseEnds_iff_logEnds.trans logEnds_length_iff⟩

/-- With a mark and a header, one byte more than `2^31`. -/
def longBody : Bytes := .replicate (2 ^ 31 - 87) 0

theorem length_longBody : longBody.length + markAndHeader = 2 ^ 31 + 1 := by
  rw [longBody, List.length_replicate]
  rfl

/-- The loop goes on for ever for `2^31 + 1`, and in the sending of a message of that size. -/
theorem portableIlog2_not_ends :
    ¬LogEnds 0x80000001 ∧ longBody.length + markAndHeader < 2 ^ 32 ∧
      ¬RequestEnds longBody ∧ ¬ResponseEnds longBody := by
  have hlong : ¬LogEnds (.ofNat (longBody.length + markAndHeader)) := by
    rw [logEnds_length_iff, length_longBody]
    decide
  refine ⟨mt logEnds_iff.mp (by decide), ?_, mt requestEnds_iff_logEnds.mp hlong,
    mt responseEnds_iff_logEnds.mp hlong⟩
  rw [length_longBody]
  decide

end Ending

end SoftwareDynamics.Network

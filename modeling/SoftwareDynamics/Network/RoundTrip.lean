import SoftwareDynamics.Network.Stream

/-! The wire round trip: messages that are sent one after the other are received one after the
other, as they were sent, however the stream is cut. -/

namespace SoftwareDynamics.Network

open ProofKit Prog

section Programs

/-- What a caller of `rpc_send_req` asks for. -/
structure ReqCall where
  body : Bytes
  parentRpc : UInt32
  method : CString

/-- What a caller of `rpc_send_resp` asks for. -/
structure RespCall where
  request : Frame
  body : Bytes
  status : RpcStatus

/-- Calls of `rpc_send_req`, one after the other. -/
def sendRequests (connection : Connection) (logFd : Fd) :
    List ReqCall → UInt32 → Sys (List (Option Unit))
  | [], _ => pure []
  | c :: calls, nextRpcId => do
    let (result, nextRpcId) ←
      rpcSendReq connection c.body c.parentRpc c.method logFd nextRpcId
    let results ← sendRequests connection logFd calls nextRpcId
    pure (result :: results)

/-- Calls of `rpc_send_resp`, one after the other. -/
def sendResponses (connection : Connection) (logFd : Fd) : List RespCall → Sys (List (Option Unit))
  | [] => pure []
  | c :: calls => do
    let result ← rpcSendResp connection c.request.message c.body c.status logFd
    let results ← sendResponses connection logFd calls
    pure (result :: results)

/-- `n` calls of a receiver, one after the other. -/
def receiveMany (receive : Sys (Option Frame)) : Nat → Sys (List (Option Frame))
  | 0 => pure []
  | n + 1 => do
    let message ← receive
    let messages ← receiveMany receive n
    pure (message :: messages)

end Programs

section Sending

variable {connection : Connection} {logFd : Fd} {e : Endpoint Keystore}

/-- A frame carries what `rpc_send_req` was asked for. -/
def ReqCall.SentAs (connection : Connection) (c : ReqCall) (f : Frame) : Prop :=
  ∃ rpcId, f.Requests connection c.body c.parentRpc c.method rpcId

/-- A frame carries what `rpc_send_resp` was asked for. -/
structure RespCall.SentAs (c : RespCall) (f : Frame) : Prop where
  data : f.data = c.body
  status : f.header.status = c.status
  answers : f.Answers c.request

/-- An end of a connection that sends complete messages, whatever arrives at it. -/
def senderEnv (connection : Connection) (logFd : Fd) : Env SysOp SysOp.Result (Endpoint Keystore) :=
  endpointEnv connection.sockFd logFd .alone anything

theorem wp_sendRequests (hlog : logFd ≠ connection.sockFd) {calls : List ReqCall}
    (hbody : ∀ c ∈ calls, c.body.length < 2 ^ 32) (rpcId : UInt32) :
    wp (watched connection logFd .alone fun _ => True) (sendRequests connection logFd calls rpcId)
      (fun results e' => results = List.replicate calls.length (some ()) ∧
        ∃ frames, e'.sent = e.sent ++ Frame.stream frames ∧
          List.Forall₂ (ReqCall.SentAs connection) calls frames) e := by
  induction calls generalizing rpcId e with
  | nil => exact ⟨rfl, [], by simp, .nil⟩
  | cons c calls ih =>
    rw [sendRequests, wp_bind]
    refine wp_rpcSendReq (hbody c List.mem_cons_self) hlog (fun _ => trivial) fun f hf => ?_
    dsimp only
    rw [wp_bind]
    refine wp_mono (ih (fun c h => hbody c (List.mem_cons_of_mem _ h)) (rpcId + 1)) ?_
    rintro results e' ⟨rfl, frames, hsent, hframes⟩
    exact ⟨rfl, f :: frames, by simp [hsent, Endpoint.send, Endpoint.look],
      .cons ⟨rpcId, hf⟩ hframes⟩

theorem wp_sendResponses (hlog : logFd ≠ connection.sockFd) {calls : List RespCall}
    (hbody : ∀ c ∈ calls, c.body.length < 2 ^ 32) :
    wp (watched connection logFd .alone fun _ => True) (sendResponses connection logFd calls)
      (fun results e' => results = List.replicate calls.length (some ()) ∧
        ∃ frames, e'.sent = e.sent ++ Frame.stream frames ∧
          List.Forall₂ RespCall.SentAs calls frames) e := by
  induction calls generalizing e with
  | nil => exact ⟨rfl, [], by simp, .nil⟩
  | cons c calls ih =>
    rw [sendResponses, wp_bind]
    refine wp_rpcSendResp (hbody c List.mem_cons_self) hlog trivial (fun _ _ _ _ => trivial)
      fun now lenLog => ?_
    rw [wp_bind]
    refine wp_mono (ih fun c h => hbody c (List.mem_cons_of_mem _ h)) ?_
    rintro results e' ⟨rfl, frames, hsent, hframes⟩
    have hbody := hbody c List.mem_cons_self
    exact ⟨rfl, c.request.response c.body hbody c.status now lenLog :: frames,
      by simp [hsent, Endpoint.send, Endpoint.look], .cons ⟨rfl, rfl, rfl, rfl⟩ hframes⟩

end Sending

section Receiving

variable {connection : Connection} {logFd : Fd} {e : Endpoint Keystore} {bytes : Bytes}
  {stamp : Frame → UInt64 → Frame}

theorem wp_recvStamped_reception (hgot : e.got <+: bytes) :
    wp (streamEnv connection logFd bytes) (recvStamped connection stamp)
      (fun message e' => ∃ t, Along bytes e t e' ∧ Reception stamp message t) e :=
  wp_stream hgot wp_reception

/-- The frame that is next in a stream is received. -/
theorem wp_recvStamped_next {f : Frame} {behind : Bytes}
    (h : e.got ++ (f.toBytes ++ behind) = bytes) :
    wp (streamEnv connection logFd bytes) (recvStamped connection stamp)
      (fun message e' => (∃ now, message = some (stamp f now)) ∧ e'.got ++ behind = bytes) e := by
  subst h
  refine wp_mono (wp_recvStamped_reception (List.prefix_append _ _)) ?_
  rintro message e' ⟨t, ⟨rfl, hgot, hended⟩, hreception⟩
  have hfirst := Frame.first_append f behind
  obtain ⟨rest, hrest⟩ := (List.prefix_append_right_inj e.got).mp hgot
  cases hreception with
  | ended hend hnone =>
    have heq : t.got = _ := List.append_cancel_left (hended hend)
    rw [heq, hfirst] at hnone
    cases hnone
  | rejected hnone =>
    rw [← hrest, hnone rest] at hfirst
    cases hfirst
  | @accepted _ g now _ heq =>
    rw [heq] at hrest
    obtain ⟨rfl, -⟩ := Frame.append_inj hrest
    refine ⟨⟨now, rfl⟩, ?_⟩
    rw [← List.append_assoc]
    simp only [Endpoint.after, heq]

/-- The next frame of a stream of frames is received. -/
theorem wp_recvStamped_cons {f : Frame} {frames : List Frame}
    (h : e.got ++ Frame.stream (f :: frames) = bytes) :
    wp (streamEnv connection logFd bytes) (recvStamped connection stamp)
      (fun message e' => (∃ now, message = some (stamp f now)) ∧
        e'.got ++ Frame.stream frames = bytes) e := by
  rw [Frame.stream_cons] at h
  exact wp_recvStamped_next h

/-- Nothing is received at the end of a stream. -/
theorem wp_recvStamped_nil (h : e.got = bytes) :
    wp (streamEnv connection logFd bytes) (recvStamped connection stamp)
      (fun message e' => message = none ∧ e'.got = bytes) e := by
  subst h
  refine wp_mono (wp_recvStamped_reception (List.prefix_refl _)) ?_
  rintro message e' ⟨t, ⟨rfl, hgot, hended⟩, hreception⟩
  have hnil : t.got = [] := by
    have hlength := hgot.length_le
    rw [List.length_append] at hlength
    exact List.eq_nil_of_length_eq_zero (by omega)
  refine ⟨?_, by simp [Endpoint.after, hnil]⟩
  cases hreception with
  | ended => rfl
  | rejected => rfl
  | @accepted _ g now _ heq => exact absurd (heq.symm.trans hnil) g.toBytes_ne_nil

/-- The calls of a receiver deliver all frames of a stream, and then fail at its end. -/
theorem wp_receiveMany {frames : List Frame} (h : e.got ++ Frame.stream frames = bytes) :
    wp (streamEnv connection logFd bytes)
      (receiveMany (recvStamped connection stamp) (frames.length + 1))
      (fun messages e' => ∃ times : List UInt64, times.length = frames.length ∧
        messages = (List.zipWith stamp frames times).map some ++ [none] ∧ e'.got = bytes) e := by
  induction frames generalizing e with
  | nil =>
    rw [List.length_nil, receiveMany, wp_bind]
    refine wp_mono (wp_recvStamped_nil (by simpa using h)) ?_
    rintro message e' ⟨rfl, hgot⟩
    exact ⟨[], rfl, rfl, hgot⟩
  | cons f frames ih =>
    rw [List.length_cons, receiveMany, wp_bind]
    refine wp_mono (wp_recvStamped_cons h) ?_
    rintro message e' ⟨⟨now, rfl⟩, hgot⟩
    rw [wp_bind]
    refine wp_mono (ih hgot) ?_
    rintro messages e'' ⟨times, hlength, rfl, hgot⟩
    exact ⟨now :: times, by rw [List.length_cons, hlength], rfl, hgot⟩

end Receiving

section RoundTrip

/-- One end of a connection gets `frames`, whatever way their bytes are cut, in one call of its
receiver each, stamped with some time, and then none. -/
def Delivers (connection : Connection) (logFd : Fd) (stamp : Frame → UInt64 → Frame)
    (keystore : Keystore) (frames : List Frame) : Prop :=
  let env := streamEnv connection logFd (Frame.stream frames)
  let receive := receiveMany (recvStamped connection stamp) (frames.length + 1)
  (∃ messages e, Exec env receive (.fresh keystore) messages e) ∧
  ∀ messages e, Exec env receive (.fresh keystore) messages e →
    e.got = Frame.stream frames ∧ ∃ times : List UInt64, times.length = frames.length ∧
      messages = (List.zipWith stamp frames times).map some ++ [none]

theorem delivers (connection : Connection) (logFd : Fd) (stamp : Frame → UInt64 → Frame)
    (keystore : Keystore) (frames : List Frame) :
    Delivers connection logFd stamp keystore frames := by
  have hwp := @wp_receiveMany connection logFd (.fresh keystore) _ stamp frames (List.nil_append _)
  refine ⟨?_, fun messages e hexec => ?_⟩
  · obtain ⟨messages, e, hexec, -⟩ := hwp.exists_exec (endpointEnv_total _ _ _)
    exact ⟨messages, e, hexec⟩
  · obtain ⟨times, hlength, hmessages, hgot⟩ := hexec.of_wp hwp
    exact ⟨hgot, times, hlength, hmessages⟩

/-- Whatever requests, or responses, one end of a connection sends, it sends them without an error
as frames that carry what it was asked to send, and the other end gets these frames, in order and
nothing else, with only the time at which they were received set. -/
theorem wire_round_trip (sender receiver : Connection) (logFd logFd' : Fd)
    (hlog : logFd ≠ sender.sockFd) (keystore keystore' : Keystore) :
    (∀ (calls : List ReqCall) (rpcId : UInt32), (∀ c ∈ calls, c.body.length < 2 ^ 32) →
      let send := sendRequests sender logFd calls rpcId
      (∃ results e, Exec (senderEnv sender logFd) send (.fresh keystore) results e) ∧
      ∀ results e, Exec (senderEnv sender logFd) send (.fresh keystore) results e →
        results = List.replicate calls.length (some ()) ∧
        ∃ frames, e.sent = Frame.stream frames ∧
          List.Forall₂ (ReqCall.SentAs sender) calls frames ∧
          Delivers receiver logFd' .reqReceived keystore' frames) ∧
    (∀ calls : List RespCall, (∀ c ∈ calls, c.body.length < 2 ^ 32) →
      let send := sendResponses sender logFd calls
      (∃ results e, Exec (senderEnv sender logFd) send (.fresh keystore) results e) ∧
      ∀ results e, Exec (senderEnv sender logFd) send (.fresh keystore) results e →
        results = List.replicate calls.length (some ()) ∧
        ∃ frames, e.sent = Frame.stream frames ∧
          List.Forall₂ RespCall.SentAs calls frames ∧
          Delivers receiver logFd' .resReceived keystore' frames) := by
  refine ⟨fun calls rpcId hbody => ?_, fun calls hbody => ?_⟩
  · have hwp := Env.wp_of_watch (wp_sendRequests (e := .fresh keystore) hlog hbody rpcId)
    refine ⟨?_, fun results e hexec => ?_⟩
    · obtain ⟨results, e, hexec, -⟩ := hwp.exists_exec (endpointEnv_total _ _ _)
      exact ⟨results, e, hexec⟩
    · obtain ⟨hresults, frames, hsent, hframes⟩ := hexec.of_wp hwp
      exact ⟨hresults, frames, hsent, hframes, delivers _ _ _ _ _⟩
  · have hwp := Env.wp_of_watch (wp_sendResponses (e := .fresh keystore) hlog hbody)
    refine ⟨?_, fun results e hexec => ?_⟩
    · obtain ⟨results, e, hexec, -⟩ := hwp.exists_exec (endpointEnv_total _ _ _)
      exact ⟨results, e, hexec⟩
    · obtain ⟨hresults, frames, hsent, hframes⟩ := hexec.of_wp hwp
      exact ⟨hresults, frames, hsent, hframes, delivers _ _ _ _ _⟩

/-- A `ping` with a body of two bytes and a `read` of a key of one byte. -/
theorem wire_round_trip_ping : ∃ results e frames,
    Exec (senderEnv ⟨5, 0, 0, 0, 0⟩ (-1)) (sendRequests ⟨5, 0, 0, 0, 0⟩ (-1)
      [⟨[1, 2], 0, ⟨ascii "ping", by decide⟩⟩, ⟨[107], 1, ⟨ascii "read", by decide⟩⟩] 1) (.fresh ∅)
      results e ∧
    e.sent = Frame.stream frames ∧ frames.length = 2 ∧
    Delivers ⟨6, 0, 0, 0, 0⟩ 4 .reqReceived ∅ frames := by
  obtain ⟨⟨results, e, hexec⟩, hall⟩ := (wire_round_trip ⟨5, 0, 0, 0, 0⟩ ⟨6, 0, 0, 0, 0⟩ (-1) 4
    (by decide) ∅ ∅).1
    [⟨[1, 2], 0, ⟨ascii "ping", by decide⟩⟩, ⟨[107], 1, ⟨ascii "read", by decide⟩⟩] 1 (by decide)
  obtain ⟨-, frames, hsent, hframes, hdelivers⟩ := hall results e hexec
  exact ⟨results, e, frames, hexec, hsent, hframes.length_eq.symm, hdelivers⟩

end RoundTrip

end SoftwareDynamics.Network

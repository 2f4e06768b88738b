import SoftwareDynamics.Network.Socket
import SoftwareDynamics.Network.Message

/-! Sending and receiving messages as `rpc.cc` does, and the log records of `log.cc`.  A function
that returns -1 in the source has the result `none` here. -/

namespace SoftwareDynamics.Network

open ProofKit Prog

section Log

/-- The first 24 bytes of the body, truncated or zero-extended to fit. -/
def logBody (message : RPCMessage) : Octets 24 :=
  match message.body with
  | some body => .fit 24 (body.take (min 24 message.mark.dataLen.toNat))
  | none => .fit 24 []

/-- Logs the header and the first 24 bytes of the body. -/
def log (logFd : Fd) (message : RPCMessage) : Sys (Option Unit) := do
  if (← sys (.write logFd message.header.toBytes)).isNone then return none
  if (← sys (.write logFd (logBody message).1)).isNone then return none
  return some ()

end Log

section Send

def nowUsec : Sys (Option UInt64) := do
  let some now ← sys .gettimeofday | return none
  return some now.usec

/-- The index of the highest bit, as `bsr` finds it, which leaves its result undefined at zero. -/
def ilog2 (x : UInt32) : Sys UInt8 :=
  if x = 0 then (fun bs : Octets 1 => bs.1.headD 0) <$> sys (.indeterminate 1)
  else pure (UInt8.ofNat x.toNat.log2)

/-- The `write` wrote all of the `n` bytes it was given. -/
def wroteAll {n : Nat} (r : Option (Fin (n + 1))) : Bool := r = some (Fin.last n)

@[simp] theorem wroteAll_last (n : Nat) : wroteAll (some (Fin.last n)) = true := by simp [wroteAll]

def markAndHeader : Nat := markSize + headerSize

/-- How both kinds of message are sent: the mark and the header in one `write`, the body in
another one, and then, if `logFd` is not negative, a log record. -/
def sendMessage (connection : Connection) (message : RPCMessage) (body : Bytes) (logFd : Fd) :
    Sys (Option Unit) := do
  if !wroteAll (← sys (.write connection.sockFd
      (message.mark.toBytes ++ message.header.toBytes))) then return none
  if !wroteAll (← sys (.write connection.sockFd body)) then return none
  if logFd ≥ 0 then
    let _ ← log logFd message
  return some ()

/-- What the pointer to the body of a request leads to: some bytes, or none of the `n + 1` bytes
that it is said to lead to, since it is `NULL`. -/
inductive Body
  | bytes (bs : Bytes)
  | null (n : Nat)
  deriving DecidableEq

instance : Coe Bytes Body := ⟨.bytes⟩

/-- `NULL` leads to as many bytes as it should if there should be none. -/
def Body.ofNull : Nat → Body
  | 0 => .bytes []
  | n + 1 => .null n

def Body.length : Body → Nat
  | .bytes bs => bs.length
  | .null n => n + 1

@[simp] theorem Body.length_bytes (bs : Bytes) : (bytes bs).length = bs.length := rfl

/-- How a request is sent.  Behind its mark and header, the `write` that is to read from `NULL`
fails. -/
def sendRequest (connection : Connection) (message : RPCMessage) (body : Body) (logFd : Fd) :
    Sys (Option Unit) :=
  match body with
  | .bytes bs => sendMessage connection message bs logFd
  | .null _ => do
    let _ ← sys (.write connection.sockFd (message.mark.toBytes ++ message.header.toBytes))
    return none

/-- Sends a request.  The second result is the next value of `next_rpc_id`. -/
def rpcSendReq (connection : Connection) (body : Body) (parentRpc : UInt32) (method : CString)
    (logFd : Fd) (nextRpcId : UInt32) : Sys (Option Unit × UInt32) := do
  let checksum ← sys (.indeterminate 4)
  let resLenLog ← sys (.indeterminate 1)
  let pad ← sys (.indeterminate 4)
  let some reqSendTimeUs ← nowUsec | return (none, nextRpcId + 1)
  let reqLenLog ← ilog2 (.ofNat (body.length + markAndHeader))
  let message : RPCMessage := {
    mark := {
      signature := MARK_SIGNATURE
      headerLen := .ofNat headerSize
      dataLen := .ofNat body.length
      checksum := ofLe32 checksum.1 }
    header := {
      rpcId := nextRpcId
      parent := parentRpc
      reqSendTimeUs
      reqRecvTimeUs := 0
      resSendTimeUs := 0
      resRecvTimeUs := 0
      clientIp := connection.clientIp
      serverIp := connection.serverIp
      clientPort := connection.clientPort
      serverPort := connection.serverPort
      reqLenLog
      resLenLog := resLenLog.1.headD 0
      messageType := .Request
      -- `strncpy`, which also pads a shorter name with zeros.
      method := .fit 8 method.bytes
      status := .Ok
      pad }
    body := none }
  return (← sendRequest connection message body logFd, nextRpcId + 1)

/-- Sends a response, whose mark and header are patched copies of those of the request. -/
def rpcSendResp (connection : Connection) (request : RPCMessage) (body : Bytes)
    (status : RpcStatus) (logFd : Fd) : Sys (Option Unit) := do
  let some resSendTimeUs ← nowUsec | return none
  let resLenLog ← ilog2 (.ofNat (body.length + markAndHeader))
  let message : RPCMessage := {
    mark := { request.mark with dataLen := .ofNat body.length }
    header := { request.header with
      resSendTimeUs
      resLenLog
      messageType := .Response
      status }
    body := some body }
  sendMessage connection message body logFd

end Send

section Receive

/-- What both receivers read behind the mark: the header, and the body that the mark announces. -/
def recvBehind (connection : Connection) (mark : RPCMark)
    (hheader : mark.headerLen.toNat = headerSize) : Sys (Option Frame) := do
  let some header ← readn connection.sockFd headerSize | return none
  let allocated ← sys (.malloc mark.dataLen.toNat)
  -- A `read` into no memory fails, unless there is nothing to read.
  if !allocated && mark.dataLen != 0 then return none
  let some data ← readn connection.sockFd mark.dataLen.toNat | return none
  return some ⟨mark, .ofBytes header.1, data.1, hheader, data.2.symm⟩

/-- What both receivers read: a mark, which must announce a header of the expected length, and what
is behind it. -/
def recvMessage (connection : Connection) : Sys (Option Frame) := do
  let some mark ← readn connection.sockFd markSize | return none
  let mark := RPCMark.ofBytes mark.1
  if hheader : mark.headerLen.toNat = headerSize then recvBehind connection mark hheader
  else return none

/-- A message stamped with the time at which it was received. -/
def recvStamped (connection : Connection) (stamp : Frame → UInt64 → Frame) :
    Sys (Option Frame) := do
  let some message ← recvMessage connection | return none
  let some now ← nowUsec | return none
  return some (stamp message now)

def rpcRecvReq (connection : Connection) : Sys (Option Frame) :=
  recvStamped connection .reqReceived

def rpcRecvResp (connection : Connection) : Sys (Option Frame) :=
  recvStamped connection .resReceived

end Receive

section Receiving

variable {σ : Type} {env : Env SysOp SysOp.Result σ} {s : σ} {connection : Connection}

/-- What a receiver relies on, with an invariant of the bytes that it has got of one message.  It
reads while they are no complete frame, keeps the invariant where a `read` delivers any bytes, and
fails where one does not, where a mark starts no frame, or where there is no memory. -/
structure Receives (env : Env SysOp SysOp.Result σ) (fd : Fd) (Q : Option Frame → σ → Prop)
    (I : Bytes → σ → Prop) : Prop where
  read : ∀ got k s, Frame.first got = none → 0 < k → I got s → env.allows s (.read fd k) ∧
    ∀ r s', env.act s (.read fd k) r s' →
      (delivered r = [] → Q none s') ∧ (delivered r ≠ [] → I (got ++ delivered r) s')
  malloc : ∀ got n s, I got s → env.allows s (.malloc n) ∧
    ∀ r s', env.act s (.malloc n) r s' → I got s' ∧ (r = false → Q none s')
  reject : ∀ got s, (∀ rest, Frame.first (got ++ rest) = none) → I got s → Q none s
  accept : ∀ f s, I f.toBytes s → Q (some f) s

/-- A part of a message, behind the bytes `before` of it. -/
theorem Receives.wp_readn {Q : Option Frame → σ → Prop} {I : Bytes → σ → Prop}
    (h : Receives env connection.sockFd Q I) {n : Nat} {R : Option (Octets n) → σ → Prop}
    (before : Bytes) (short : ∀ got, got.length < n → Frame.first (before ++ got) = none)
    (init : I before s) (fail : ∀ s, Q none s → R none s)
    (done : ∀ got (hgot : got.length = n) s, I (before ++ got) s → R (some ⟨got, hgot⟩) s) :
    wp env (readn connection.sockFd n) R s := by
  refine Network.wp_readn (fun got s => I (before ++ got) s) (by simpa using init)
    (fun got k s hlen hk hI => ?_) done
  obtain ⟨hallows, hact⟩ := h.read (before ++ got) k s (short got (by omega)) hk hI
  refine ⟨hallows, fun r s' hr => ?_⟩
  obtain ⟨hend, hmore⟩ := hact r s' hr
  exact ⟨fun hempty => fail s' (hend hempty), fun hne => by simpa using hmore hne⟩

theorem Receives.wp_recvBehind {Q : Option Frame → σ → Prop} {I : Bytes → σ → Prop}
    (h : Receives env connection.sockFd Q I) {mark : RPCMark}
    (hheader : mark.headerLen.toNat = headerSize) (init : I mark.toBytes s) :
    wp env (recvBehind connection mark hheader) Q s := by
  rw [recvBehind, wp_bind]
  refine h.wp_readn mark.toBytes (fun got hgot => ?_) init (fun s hs => hs)
    fun bs hbs s hI => ?_
  · exact Frame.first_eq_none_of_short (Nat.lt_add_right _ hgot)
  obtain ⟨header, rfl⟩ : ∃ header : RPCHeader, bs = header.toBytes :=
    ⟨.ofBytes bs, (RPCHeader.toBytes_ofBytes hbs).symm⟩
  obtain ⟨hallows, hact⟩ := h.malloc _ mark.dataLen.toNat s hI
  dsimp only
  rw [wp_bind, wp_perform]
  refine ⟨hallows, fun allocated s hmalloc => ?_⟩
  obtain ⟨hI, hfail⟩ := hact allocated s hmalloc
  split_ifs with hnull
  · exact hfail (by simpa using (Bool.and_eq_true_iff.mp hnull).1)
  rw [wp_bind]
  refine h.wp_readn (mark.toBytes ++ header.toBytes) (fun got hgot => ?_) hI (fun s hs => hs)
    fun data hdata s hI => ?_
  · rw [List.append_assoc]
    exact Frame.first_eq_none_of_short (by simp [header.toBytes_length]; omega)
  · rw [RPCHeader.ofBytes_toBytes]
    exact h.accept ⟨mark, header, data, hheader, hdata.symm⟩ s hI

/-- The receiver of a message gets the frame that the bytes it reads begin with, or fails. -/
theorem Receives.wp_recvMessage {Q : Option Frame → σ → Prop} {I : Bytes → σ → Prop}
    (h : Receives env connection.sockFd Q I) (init : I [] s) :
    wp env (recvMessage connection) Q s := by
  rw [recvMessage, wp_bind]
  refine h.wp_readn [] (fun got hgot => Frame.first_eq_none_of_lt (Nat.lt_add_right _ hgot)) init
    (fun s hs => hs) fun bs hbs s hI => ?_
  obtain ⟨mark, rfl⟩ : ∃ mark : RPCMark, bs = mark.toBytes :=
    ⟨.ofBytes bs, (RPCMark.toBytes_ofBytes hbs).symm⟩
  rw [List.nil_append] at hI
  simp only [RPCMark.ofBytes_toBytes]
  split_ifs with hheader
  · exact h.wp_recvBehind hheader hI
  · exact h.reject _ s (fun rest => Frame.first_eq_none_of_mark hbs
      (by rwa [RPCMark.ofBytes_toBytes])) hI

end Receiving

section Requesting

variable {σ : Type} {env : Env SysOp SysOp.Result σ} {s : σ} {connection : Connection}
  {body : Body} {parentRpc rpcId : UInt32} {method : CString} {logFd : Fd}

/-- The message that `rpc_send_req` makes of what its calls come to. -/
def requestMessage (connection : Connection) (body : Body) (parentRpc : UInt32)
    (method : CString) (rpcId : UInt32) (checksum : Octets 4) (resLenLog : Octets 1)
    (pad : Octets 4) (reqSendTimeUs : UInt64) (reqLenLog : UInt8) : RPCMessage where
  mark := ⟨MARK_SIGNATURE, .ofNat headerSize, .ofNat body.length, ofLe32 checksum.1⟩
  header := {
    rpcId, parent := parentRpc, reqSendTimeUs, reqRecvTimeUs := 0, resSendTimeUs := 0
    resRecvTimeUs := 0, clientIp := connection.clientIp, serverIp := connection.serverIp
    clientPort := connection.clientPort, serverPort := connection.serverPort, reqLenLog
    resLenLog := resLenLog.1.headD 0, messageType := .Request, method := .fit 8 method.bytes
    status := .Ok, pad }
  body := none

/-- Before it looks at the clock, `rpc_send_req` only looks at what it leaves unset. -/
theorem wp_rpcSendReq_looks {Q : Option Unit × UInt32 → σ → Prop}
    (look : ∀ (n : Nat) (R : Octets n → σ → Prop), (∀ bs, R bs s) →
      wp env (sys (.indeterminate n)) R s)
    (h : ∀ checksum resLenLog pad, wp env nowUsec (fun now s =>
      match now with
      | none => Q (none, rpcId + 1) s
      | some now => wp env (ilog2 (.ofNat (body.length + markAndHeader))) (fun reqLenLog s =>
          wp env (sendRequest connection (requestMessage connection body parentRpc method rpcId
            checksum resLenLog pad now reqLenLog) body logFd) (fun r => Q (r, rpcId + 1)) s) s) s) :
    wp env (rpcSendReq connection body parentRpc method logFd rpcId) Q s := by
  rw [rpcSendReq, wp_bind]
  refine look 4 _ fun checksum => ?_
  rw [wp_bind]
  refine look 1 _ fun resLenLog => ?_
  rw [wp_bind]
  refine look 4 _ fun pad => ?_
  rw [wp_bind]
  refine wp_mono (h checksum resLenLog pad) fun now s hnow => ?_
  cases now with
  | none => exact hnow
  | some now =>
    dsimp only
    rw [wp_bind]
    refine wp_mono hnow fun reqLenLog s hsend => ?_
    rw [wp_bind]
    exact hsend

end Requesting

section Executions

variable {σ : Type} {env : Env SysOp SysOp.Result σ} {s : σ}

/-- Receiving, and looking at the clock, may have any results and leaves the state as it is. -/
structure Open (env : Env SysOp SysOp.Result σ) (s : σ) : Prop where
  read : ∀ fd count r, env.act s (.read fd count) r s
  malloc : ∀ n r, env.act s (.malloc n) r s
  gettimeofday : ∀ r, env.act s .gettimeofday r s
  indeterminate : ∀ n r, env.act s (.indeterminate n) r s

/-- Each `write` to `fd` may be complete, and leaves the state as it is. -/
def Absorbs (env : Env SysOp SysOp.Result σ) (s : σ) (fd : Fd) : Prop :=
  ∀ buf, env.act s (.write fd buf) (some (Fin.last buf.length)) s

theorem Open.exec_nowUsec (h : Open env s) : Exec env nowUsec s (some 0) s :=
  .call (h.gettimeofday (some ⟨0, 0⟩)) (.ret _ s)

theorem Open.exec_ilog2 (h : Open env s) (x : UInt32) : ∃ y, Exec env (ilog2 x) s y s := by
  unfold ilog2
  split_ifs
  · exact ⟨_, .call (h.indeterminate 1 ⟨[0], rfl⟩) (.ret _ s)⟩
  · exact ⟨_, .ret _ s⟩

theorem Open.exec_recvMessage (h : Open env s) (connection : Connection) (f : Frame) :
    Exec env (recvMessage connection) s (some f) s := by
  obtain ⟨mark, header, data, hheader, hdata⟩ := f
  refine (exec_readn (h.read _) ⟨mark.toBytes, mark.toBytes_length⟩).bind ?_
  simp only [RPCMark.ofBytes_toBytes, hheader, dite_true]
  refine (exec_readn (h.read _) ⟨header.toBytes, header.toBytes_length⟩).bind ?_
  simp only [RPCHeader.ofBytes_toBytes]
  refine .call (h.malloc _ true) ?_
  exact (exec_readn (h.read _) ⟨data, hdata.symm⟩).bind (.ret _ s)

/-- A request may be sent with nothing but zeros in what is left unset. -/
theorem Open.exec_rpcSendReq (h : Open env s) {connection : Connection} {body : Body}
    {parentRpc rpcId : UInt32} {method : CString} {logFd : Fd} {reqLenLog : UInt8}
    {sent : Option Unit} {t : σ}
    (hlog : Exec env (ilog2 (.ofNat (body.length + markAndHeader))) s reqLenLog s)
    (hsend : Exec env (sendRequest connection (requestMessage connection body parentRpc method
      rpcId (.fit 4 []) (.fit 1 []) (.fit 4 []) 0 reqLenLog) body logFd) s sent t) :
    Exec env (rpcSendReq connection body parentRpc method logFd rpcId) s (sent, rpcId + 1) t := by
  have look (n : Nat) : Exec env (sys (.indeterminate n)) s (.fit n []) s :=
    .perform (h.indeterminate n _)
  refine (look 4).bind ((look 1).bind ((look 4).bind (h.exec_nowUsec.bind ?_)))
  exact hlog.bind (hsend.bind (.ret _ t))

/-- Any request may be received. -/
theorem Open.exec_rpcRecvReq (h : Open env s) (connection : Connection) (f : Frame) :
    Exec env (rpcRecvReq connection) s (some (f.reqReceived 0)) s :=
  (h.exec_recvMessage connection f).bind (h.exec_nowUsec.bind (.ret _ s))

theorem exec_log {logFd : Fd} (h : Absorbs env s logFd) (message : RPCMessage) :
    Exec env (log logFd message) s (some ()) s :=
  .call (h _) (.call (h _) (.ret _ s))

/-- A message may be sent as both `write`s of it may be complete. -/
theorem exec_sendMessage {connection : Connection} {logFd : Fd} {message : RPCMessage}
    {body : Bytes} {t u : σ}
    (hhead : env.act s (.write connection.sockFd
      (message.mark.toBytes ++ message.header.toBytes)) (some (Fin.last _)) t)
    (hbody : env.act t (.write connection.sockFd body) (some (Fin.last _)) u)
    (hlog : Absorbs env u logFd) :
    Exec env (sendMessage connection message body logFd) s (some ()) u := by
  refine (Exec.perform hhead).bind ?_
  simp only [wroteAll_last, Bool.not_true, Bool.false_eq_true, if_false]
  refine (Exec.perform hbody).bind ?_
  simp only [wroteAll_last, Bool.not_true, Bool.false_eq_true, if_false]
  split_ifs
  · exact (exec_log hlog message).bind (.ret _ u)
  · exact .ret _ u

end Executions

end SoftwareDynamics.Network

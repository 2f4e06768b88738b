import SoftwareDynamics.Network.Rpc
import SoftwareDynamics.Network.MyRpc
import Mathlib.Data.Finmap

/-! The server of `server.cc`: the handlers of the requests, the loop that serves a connection, and
the loop of a listener thread.  What the server prints is left out. -/

namespace SoftwareDynamics.Network

open ProofKit Prog

section Keystore

/-- The entries that all listener threads share. -/
abbrev Keystore := Finmap fun _ : Bytes => Value

/-- `emplace` leaves the entry of a key that has one as it is. -/
def Keystore.emplace (keystore : Keystore) (key : Bytes) (value : Value) : Keystore :=
  if (keystore.lookup key).isSome then keystore else keystore.insert key value

theorem Keystore.lookup_emplace (keystore : Keystore) (key k : Bytes) (value : Value) :
    (keystore.emplace key value).lookup k =
      (keystore.lookup k).or (if k = key then some value else none) := by
  unfold emplace
  by_cases hk : k = key
  · subst hk
    cases hlookup : keystore.lookup k with
    | none => simp
    | some v => simp [hlookup]
  · split_ifs
    · simp
    · simp [Finmap.lookup_insert_of_ne keystore hk]

end Keystore

section Handlers

/-- A byte of a request's body, or of the memory behind it. -/
def loadBody (body : Bytes) (i : Nat) : Sys UInt8 :=
  if h : i < body.length then pure body[i]
  else (fun bs : Octets 1 => bs.1.headD 0) <$> sys (.indeterminate 1)

/-- Sends a response.  None of its callers looks at what `rpc_send_resp` returns. -/
def respond (connection : Connection) (request : Frame) (body : Bytes) (status : RpcStatus)
    (logFd : Fd) : Sys Unit := do
  let _ ← rpcSendResp connection request.message body status logFd
  pure ()

def handleRpcPing (connection : Connection) (request : Frame) (logFd : Fd) : Sys Unit :=
  respond connection request request.data .Ok logFd

def handleRpcWrite (connection : Connection) (request : Frame) (logFd : Fd) : Sys Unit := do
  let load := loadBody request.data
  if ← WriteRequest.fromBody load request.mark.dataLen.toNat then
    let key ← WriteRequest.key load
    let value ← WriteRequest.value load
    sys (.emplace key value)
    respond connection request [] .Ok logFd
  else respond connection request [] .BadArg logFd

def handleRpcRead (connection : Connection) (request : Frame) (logFd : Fd) : Sys Unit := do
  match ← sys (.find request.data) with
  | some result => respond connection request result.1 .Ok logFd
  | none => respond connection request [] .NotFound logFd

variable {connection : Connection} {request : Frame} {logFd : Fd}

theorem loadBody_loads (body : Bytes) : WriteRequest.Loads (loadBody body) body :=
  fun _ h => dif_pos h

/-- What a write request comes to: its block and the answer `Ok`, if its body is well formed, and
the answer `BadArg` otherwise. -/
theorem handleRpcWrite_eq (h : WriteRequest.size ≤ request.data.length) :
    handleRpcWrite connection request logFd =
      match WriteRequest.parse request.data with
      | some (key, value) =>
        sys (.emplace key value) >>= fun _ => respond connection request [] .Ok logFd
      | none => respond connection request [] .BadArg logFd := by
  have hload := loadBody_loads request.data
  rw [handleRpcWrite, request.dataLen_eq]
  simp only [WriteRequest.fromBody_eq hload h, pure_bind]
  cases hparse : WriteRequest.parse request.data with
  | none => rfl
  | some kv =>
    obtain ⟨key, value⟩ := kv
    simp only [Option.isSome_some, if_true, WriteRequest.key_eq hload h hparse,
      WriteRequest.value_eq hload h hparse, pure_bind]

end Handlers

section Connections

inductive RpcAction
  | QUIT
  | CONTINUE
  deriving DecidableEq

/-- `strncmp(s, t, n) == 0`, where a string that has ended reads as zero. -/
def strncmp : (n : Nat) → Bytes → Bytes → Bool
  | 0, _, _ => true
  | n + 1, s, t =>
    if s.headD 0 ≠ t.headD 0 then false
    else if s.headD 0 = 0 then true
    else strncmp n s.tail t.tail

/-- The test that finds the handler of a message. -/
def Frame.is (message : Frame) (method : String) : Bool :=
  strncmp 8 message.header.method.1 (ascii method)

/-- Processes one command.  The result is the action that ends the connection's loop, if any. -/
def processCommand (connection : Connection) (message : Frame) (logFd : Fd) :
    Sys (Option RpcAction) := do
  if message.is "ping" then
    handleRpcPing connection message logFd
    return none
  else if message.is "write" then
    handleRpcWrite connection message logFd
    return none
  else if message.is "read" then
    handleRpcRead connection message logFd
    return none
  else if message.is "quit" then
    respond connection message [] .Ok logFd
    return some .QUIT
  else return some .CONTINUE

/-- One round of the loop of `handle_rpc_conn`. -/
def serveMessage (connection : Connection) (logFd : Fd) : Sys (Option RpcAction) := do
  let some message ← rpcRecvReq connection | return some .CONTINUE
  let _ ← log logFd message.message
  processCommand connection message logFd

/-- `handle_rpc_conn`, at the head of its loop or returned with an action. -/
def handleRpcConn (connection : Connection) (logFd : Fd) :
    Process SysOp SysOp.Result (Option RpcAction) where
  code _ := serveMessage connection logFd
  halted := Option.isSome

/-- A string of `n` bytes agrees with a shorter one if it is that one up to its first zero byte. -/
theorem strncmp_iff {n : Nat} {s t : Bytes} (hs : s.length = n) (ht : t.length < n) (h : 0 ∉ t) :
    strncmp n s t ↔ s.takeWhile (· ≠ 0) = t := by
  induction n generalizing s t with
  | zero => omega
  | succ n ih =>
    obtain ⟨a, s, rfl⟩ := List.exists_cons_of_length_eq_add_one hs
    cases t with
    | nil =>
      rw [strncmp]
      by_cases ha : a = 0 <;> simp [ha]
    | cons b t =>
      have hb : b ≠ 0 := fun hb => h (by simp [hb])
      have ih := @ih s t (by simpa using hs) (by simpa using ht) fun h0 =>
        h (List.mem_cons_of_mem b h0)
      rw [strncmp]
      by_cases hab : a = b
      · subst hab
        simpa [hb] using ih
      · by_cases ha : a = 0 <;> simp [hab, ha, hb.symm]

/-- The name of the method, which ends at its first zero byte. -/
def Frame.methodName (message : Frame) : Bytes := message.header.method.1.takeWhile (· ≠ 0)

theorem Frame.is_iff (message : Frame) {method : String} (hlen : (ascii method).length < 8)
    (hzero : 0 ∉ ascii method) : message.is method ↔ message.methodName = ascii method :=
  strncmp_iff message.header.method.2 hlen hzero

variable {connection : Connection} {message : Frame} {logFd : Fd}

theorem Frame.is_eq_decide (message : Frame) {method : String} (hlen : (ascii method).length < 8)
    (hzero : 0 ∉ ascii method) :
    message.is method = decide (message.methodName = ascii method) := by
  rw [Bool.eq_iff_iff, message.is_iff hlen hzero, decide_eq_true_iff]

/-- A command is found by the name of its method. -/
theorem processCommand_eq (connection : Connection) (message : Frame) (logFd : Fd) :
    processCommand connection message logFd =
      if message.methodName = ascii "ping" then
        handleRpcPing connection message logFd >>= fun _ => pure none
      else if message.methodName = ascii "write" then
        handleRpcWrite connection message logFd >>= fun _ => pure none
      else if message.methodName = ascii "read" then
        handleRpcRead connection message logFd >>= fun _ => pure none
      else if message.methodName = ascii "quit" then
        respond connection message [] .Ok logFd >>= fun _ => pure (some .QUIT)
      else pure (some .CONTINUE) := by
  unfold processCommand
  rw [message.is_eq_decide (by decide) (by decide), message.is_eq_decide (by decide) (by decide),
    message.is_eq_decide (by decide) (by decide), message.is_eq_decide (by decide) (by decide)]
  simp only [decide_eq_true_eq]

end Connections

section Executions

variable {σ : Type} {env : Env SysOp SysOp.Result σ} {s s' : σ} {connection : Connection}
  {logFd : Fd}

/-- A request may be answered as any response to it may be sent. -/
theorem Open.exec_respond (h : Open env s) (request : Frame) {body : Bytes}
    (hbody : body.length < 2 ^ 32) (status : RpcStatus) (t : Frame → σ)
    (hsend : ∀ f : Frame, f.data = body → ∃ result,
      Exec env (sendMessage connection f.message body logFd) s result (t f)) :
    ∃ lenLog, Exec env (respond connection request body status logFd) s ()
      (t (request.response body hbody status 0 lenLog)) := by
  obtain ⟨lenLog, hilog⟩ := h.exec_ilog2 (.ofNat (body.length + markAndHeader))
  obtain ⟨result, hsend⟩ := hsend (request.response body hbody status 0 lenLog) rfl
  exact ⟨lenLog, (h.exec_nowUsec.bind (hilog.bind hsend)).bind (.ret _ _)⟩

/-- The next request of a connection may be any request. -/
theorem Open.exec_serveMessage (h : Open env s) (hlog : Absorbs env s logFd) {f : Frame}
    (hf : f.header.reqRecvTimeUs = 0) {r : Option RpcAction}
    (hcommand : Exec env (processCommand connection f logFd) s r s') :
    Exec env (serveMessage connection logFd) s r s' := by
  have hrecv := h.exec_rpcRecvReq connection f
  rw [← hf, Frame.reqReceived_self] at hrecv
  exact hrecv.bind ((exec_log hlog f.message).bind hcommand)

end Executions

section Listener

def SOCK_BACKLOG : Int32 := 1

def serverLogFn (port : Int32) : Bytes :=
  ascii ("server-" ++ toString port.toInt ++ ".log")

/-- Where a listener thread is: at its start, at the head of its loop, in `handle_rpc_conn`, behind
its loop, or after its return or the exit of the whole server. -/
inductive ListenPc
  | start
  | accept (listenSockFd logFd : Fd)
  | serve (listenSockFd logFd : Fd) (connection : Connection)
  | closing (listenSockFd logFd : Fd)
  | returned
  | exited
  deriving DecidableEq

/-- A connection made of whatever is in its memory. -/
def uninitConnection : Sys Connection :=
  (fun bs : Octets 16 => {
    sockFd := (ofLe32 (bs.1.take 4)).toInt32
    clientIp := ofLe32 ((bs.1.drop 4).take 4)
    serverIp := ofLe32 ((bs.1.drop 8).take 4)
    clientPort := ofLe16 ((bs.1.drop 12).take 2)
    serverPort := ofLe16 ((bs.1.drop 14).take 2) }) <$> sys (.indeterminate 16)

def listenCode (port : Int32) : ListenPc → Sys ListenPc
  | .start => do
    match ← tcpListen (.ofInt port.toInt) SOCK_BACKLOG with
    | .error _ => return .returned
    | .ok listenSockFd =>
      let some logFd ← sys (.creat (serverLogFn port)) | return .exited
      return .accept listenSockFd logFd
  | .accept listenSockFd logFd => do
    let connection ← uninitConnection
    -- What `tcp_accept` returns is not looked at.
    let (_, connection) ← tcpAccept listenSockFd connection
    return .serve listenSockFd logFd connection
  | .serve listenSockFd logFd connection => do
    match ← serveMessage connection logFd with
    | none => return .serve listenSockFd logFd connection
    | some action =>
      let _ ← sys (.close connection.sockFd)
      match action with
      | .CONTINUE => return .accept listenSockFd logFd
      | .QUIT => return .closing listenSockFd logFd
  | .closing listenSockFd logFd => do
    let _ ← sys (.close listenSockFd)
    let _ ← sys (.close logFd)
    return .returned
  | .returned => return .returned
  | .exited => return .exited

/-- The listener thread is over. -/
def ListenPc.over : ListenPc → Bool
  | .returned | .exited => true
  | _ => false

/-- The thread has left its loop. -/
def ListenPc.left : ListenPc → Bool
  | .closing _ _ | .returned | .exited => true
  | _ => false

def rpcListen (port : Int32) : Process SysOp SysOp.Result ListenPc where
  code := listenCode port
  halted := ListenPc.over

end Listener

end SoftwareDynamics.Network

import SoftwareDynamics.Network.Service

/-! Which operations the programs perform, whatever the results of these are. -/

namespace SoftwareDynamics.Network

open ProofKit Prog

section Operations

/-- The operations of a receiver. -/
def SysOp.Receiving (sock : Fd) : SysOp → Prop
  | .read fd _ => fd = sock
  | .malloc _ | .gettimeofday => True
  | _ => False

/-- The operations that serve a connection. -/
def SysOp.Serving (sock logFd : Fd) : SysOp → Prop
  | .read fd _ => fd = sock
  | .write fd _ => fd = sock ∨ fd = logFd
  | .malloc _ | .gettimeofday | .indeterminate _ | .emplace _ _ | .find _ => True
  | _ => False

variable {sock logFd : Fd}

theorem SysOp.Receiving.serving {op : SysOp} (h : op.Receiving sock) : op.Serving sock logFd := by
  cases op <;> first | exact h | exact trivial | exact h.elim

end Operations

section Opening

/-- The operations that open a connection at the server. -/
def SysOp.Opening : SysOp → Prop
  | .socket | .bind _ _ | .listen _ _ | .accept _ | .getsockname _ | .close _ => True
  | _ => False

theorem tcpListen_only (port : UInt16) (backlog : Int32) :
    (tcpListen port backlog).Only SysOp.Opening := by
  have hclose (fd : Fd) (err : Errno) : ((do
      let _ ← sys (.close fd)
      return .error err) : Sys (Except Errno Fd)).Only SysOp.Opening :=
    (only_perform trivial).bind fun _ => only_pure _
  refine (only_perform trivial).bind fun r => ?_
  cases r with
  | error err => exact only_pure _
  | ok sockFd =>
    refine (only_perform trivial).bind fun r => ?_
    cases r with
    | error err => exact hclose _ _
    | ok _ =>
      refine (only_perform trivial).bind fun r => ?_
      cases r with
      | error err => exact hclose _ _
      | ok _ => exact only_pure _

theorem tcpAccept_only (sockFd : Fd) (connection : Connection) :
    (tcpAccept sockFd connection).Only SysOp.Opening := by
  refine (only_perform trivial).bind fun r => ?_
  cases r with
  | error err => exact only_pure _
  | ok accepted =>
    dsimp only
    split_ifs
    · exact only_pure _
    refine (only_perform trivial).bind fun r => ?_
    cases r with
    | error err => exact (only_perform trivial).bind fun _ => only_pure _
    | ok name =>
      dsimp only
      split_ifs <;> exact only_pure _

end Opening

section Receiving

variable {P : SysOp → Prop} {connection : Connection} {logFd : Fd}

theorem readn_only {sock : Fd} (hP : ∀ count, P (.read sock count)) (n : Nat) :
    (readn sock n).Only P := by
  induction n using Nat.strongRecOn with
  | _ n ih =>
    rw [readn]
    split_ifs with hzero
    · exact only_pure _
    · refine ⟨hP n, fun r => ?_⟩
      rcases r with _ | ⟨_ | ⟨b, bs⟩, hlen⟩
      · exact only_pure _
      · exact only_pure _
      · have hlen : bs.length + 1 ≤ n := hlen
        refine (ih (n - (bs.length + 1)) (by omega)).bind fun rest => ?_
        cases rest <;> exact only_pure _

theorem nowUsec_only (hP : P .gettimeofday) : nowUsec.Only P :=
  (only_perform hP).bind fun now => by cases now <;> exact only_pure _

theorem recvStamped_only (connection : Connection) (stamp : Frame → UInt64 → Frame) :
    (recvStamped connection stamp).Only (SysOp.Receiving connection.sockFd) := by
  have read (n : Nat) : (readn connection.sockFd n).Only (SysOp.Receiving connection.sockFd) :=
    readn_only (fun _ => rfl) n
  have behind (mark : RPCMark) (hheader : mark.headerLen.toNat = headerSize) :
      (recvBehind connection mark hheader).Only (SysOp.Receiving connection.sockFd) := by
    refine (read _).bind fun header => ?_
    cases header with
    | none => exact only_pure _
    | some header =>
      refine (only_perform trivial).bind fun allocated => ?_
      split_ifs
      · exact only_pure _
      · exact (read _).bind fun data => by cases data <;> exact only_pure _
  refine Only.bind ((read _).bind fun mark => ?_) fun message => ?_
  · cases mark with
    | none => exact only_pure _
    | some mark =>
      dsimp only
      split_ifs
      · exact behind _ _
      · exact only_pure _
  · cases message with
    | none => exact only_pure _
    | some message =>
      exact (nowUsec_only trivial).bind fun now => by cases now <;> exact only_pure _

theorem log_only (hP : ∀ buf, P (.write logFd buf)) (message : RPCMessage) :
    (log logFd message).Only P := by
  refine (only_perform (hP _)).bind fun r => ?_
  split_ifs
  · exact only_pure _
  · refine (only_perform (hP _)).bind fun r => ?_
    split_ifs <;> exact only_pure _

end Receiving

section Serving

variable {connection : Connection} {logFd : Fd}

theorem ilog2_only {P : SysOp → Prop} (hP : ∀ n, P (.indeterminate n)) (x : UInt32) :
    (ilog2 x).Only P := by
  unfold ilog2
  split_ifs
  · exact (only_perform (hP 1)).map _
  · exact only_pure _

theorem sendMessage_only {P : SysOp → Prop} (hsock : ∀ buf, P (.write connection.sockFd buf))
    (hlog : ∀ buf, P (.write logFd buf)) (message : RPCMessage) (body : Bytes) :
    (sendMessage connection message body logFd).Only P := by
  refine (only_perform (hsock _)).bind fun r => ?_
  split
  · exact only_pure _
  refine (only_perform (hsock _)).bind fun r => ?_
  split
  · exact only_pure _
  split
  · exact (log_only hlog _).bind fun _ => only_pure _
  · exact only_pure _

theorem sendRequest_only {P : SysOp → Prop} (hsock : ∀ buf, P (.write connection.sockFd buf))
    (hlog : ∀ buf, P (.write logFd buf)) (message : RPCMessage) (body : Body) :
    (sendRequest connection message body logFd).Only P := by
  cases body with
  | bytes bs => exact sendMessage_only hsock hlog _ _
  | null n => exact (only_perform (hsock _)).bind fun _ => only_pure _

theorem rpcSendReq_only_of {P : SysOp → Prop} (hclock : P .gettimeofday)
    (hmemory : ∀ n, P (.indeterminate n)) {body : Body}
    (hsend : ∀ message, (sendRequest connection message body logFd).Only P) (parentRpc : UInt32)
    (method : CString) (nextRpcId : UInt32) :
    (rpcSendReq connection body parentRpc method logFd nextRpcId).Only P := by
  refine (only_perform (hmemory 4)).bind fun _ => (only_perform (hmemory 1)).bind fun _ =>
    (only_perform (hmemory 4)).bind fun _ => (nowUsec_only hclock).bind fun now => ?_
  cases now with
  | none => exact only_pure _
  | some now =>
    exact (ilog2_only hmemory _).bind fun _ => (hsend _).bind fun _ => only_pure _

theorem rpcSendReq_only {P : SysOp → Prop} (hsock : ∀ buf, P (.write connection.sockFd buf))
    (hlog : ∀ buf, P (.write logFd buf)) (hclock : P .gettimeofday)
    (hmemory : ∀ n, P (.indeterminate n)) (body : Body) (parentRpc : UInt32) (method : CString)
    (nextRpcId : UInt32) :
    (rpcSendReq connection body parentRpc method logFd nextRpcId).Only P :=
  rpcSendReq_only_of hclock hmemory (fun message => sendRequest_only hsock hlog message body) _ _ _

theorem respond_only {P : SysOp → Prop} (hsock : ∀ buf, P (.write connection.sockFd buf))
    (hlog : ∀ buf, P (.write logFd buf)) (hclock : P .gettimeofday)
    (hmemory : ∀ n, P (.indeterminate n)) (request : Frame) (body : Bytes) (status : RpcStatus) :
    (respond connection request body status logFd).Only P := by
  refine Only.bind ((nowUsec_only hclock).bind fun now => ?_) fun _ => only_pure _
  cases now with
  | none => exact only_pure _
  | some now => exact (ilog2_only hmemory _).bind fun _ => sendMessage_only hsock hlog _ _

/-- A command writes, and looks at the clock, at memory and at the store. -/
theorem processCommand_only_of {P : SysOp → Prop} (hsock : ∀ buf, P (.write connection.sockFd buf))
    (hlog : ∀ buf, P (.write logFd buf)) (hclock : P .gettimeofday)
    (hmemory : ∀ n, P (.indeterminate n)) (hemplace : ∀ key value, P (.emplace key value))
    (hfind : ∀ key, P (.find key)) (message : Frame) :
    (processCommand connection message logFd).Only P := by
  have hrespond (request : Frame) (body : Bytes) (status : RpcStatus) :
      (respond connection request body status logFd).Only P :=
    respond_only hsock hlog hclock hmemory request body status
  have hload (i : Nat) : (loadBody message.data i).Only P := by
    refine (loadBody_only message.data i).mono fun op hop => ?_
    cases op with
    | indeterminate n => exact hmemory n
    | _ => exact hop.elim
  rw [processCommand_eq]
  split_ifs
  · exact (hrespond _ _ _).bind fun _ => only_pure _
  · refine Only.bind ((WriteRequest.fromBody_only hload _).bind fun ok => ?_) fun _ => only_pure _
    split_ifs
    · refine (WriteRequest.key_only hload).bind fun key => ?_
      refine (WriteRequest.value_only hload).bind fun value => ?_
      exact (only_perform (hemplace _ _)).bind fun _ => hrespond _ _ _
    · exact hrespond _ _ _
  · refine Only.bind ((only_perform (hfind _)).bind fun r => ?_) fun _ => only_pure _
    cases r <;> exact hrespond _ _ _
  · exact (hrespond _ _ _).bind fun _ => only_pure _
  · exact only_pure _

theorem processCommand_only (message : Frame) :
    (processCommand connection message logFd).Only (SysOp.Serving connection.sockFd logFd) :=
  processCommand_only_of (fun _ => .inl rfl) (fun _ => .inr rfl) trivial (fun _ => trivial)
    (fun _ _ => trivial) (fun _ => trivial) message

/-- A round of serving a connection neither opens nor closes a descriptor. -/
theorem serveMessage_only (connection : Connection) (logFd : Fd) :
    (serveMessage connection logFd).Only (SysOp.Serving connection.sockFd logFd) := by
  have hrecv : Only (SysOp.Serving connection.sockFd logFd) (rpcRecvReq connection) :=
    (recvStamped_only connection _).mono fun _ => SysOp.Receiving.serving
  refine hrecv.bind fun message => ?_
  cases message with
  | none => exact only_pure _
  | some message =>
    exact (log_only (fun _ => .inr rfl) _).bind fun _ => processCommand_only message

end Serving

end SoftwareDynamics.Network

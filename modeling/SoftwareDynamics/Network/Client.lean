import SoftwareDynamics.Network.Rpc
import SoftwareDynamics.Network.MyRpc

/-! The client of `client.cc`, from the arguments that it has parsed on.  What it prints is left
out. -/

namespace SoftwareDynamics.Network

open ProofKit Prog

section Arguments

structure StrConfig where
  base : Option CString
  incrementBase : Bool
  paddedLength : UInt64
  deriving DecidableEq

inductive Command
  | Ping
  | Write
  | Read
  | Quit
  deriving DecidableEq

/-- What stands for a command in the arguments. -/
def Command.str : Command → Bytes
  | .Ping => ascii "ping"
  | .Write => ascii "write"
  | .Read => ascii "read"
  | .Quit => ascii "quit"

theorem Command.str_noNul (command : Command) : 0 ∉ command.str := by
  cases command <;> decide

structure Args where
  server : CString
  port : UInt16
  nConns : UInt32
  rpcsPerConn : UInt32
  waitMs : UInt32
  seed1 : Bool
  verbose : Bool
  command : Command
  commandStr : CString
  commandStr_eq : commandStr.bytes = command.str
  keyConfig : StrConfig
  valueConfig : StrConfig

theorem loopback_noNul : 0 ∉ ascii "127.0.0.1" := by decide

end Arguments

section Program

/-- Produce the nth string according to the given config, which is the same for each n. -/
def genStrDirect (config : StrConfig) (_n : Nat) : Bytes :=
  match config.base with
  | none => ascii "foo bar baz" ++ [0]
  | some base => base.bytes

/-- What the client finds in `body` once `gen_str_direct` has stored the string that it has made.
It is stored through a `char **` to `body`, which is a `uint8_t *`, and so need not be taken for a
store to `body`.  `stored` tells if it is.  With the flags of the Makefile it is not, and `body`
stays `NULL`, while the length is there. -/
def castBody (stored : Bool) (data : Bytes) : Body :=
  if stored then .bytes data else .ofNull data.length

theorem castBody_eq {stored : Bool} {data : Bytes} (h : stored = true ∨ data = []) :
    castBody stored data = data := by
  rcases h with rfl | rfl
  · rfl
  · cases stored <;> rfl

theorem castBody_eq_null {stored : Bool} {data : Bytes} (h : ¬(stored = true ∨ data = [])) :
    ∃ n, castBody stored data = .null n ∧ data.length = n + 1 := by
  rw [not_or, Bool.not_eq_true] at h
  obtain ⟨rfl, hne⟩ := h
  obtain ⟨b, data, rfl⟩ := List.exists_cons_of_ne_nil hne
  exact ⟨data.length, rfl, rfl⟩

/-- The body of the request number `j` of a connection.  There is none where `WriteRequest::Make`
returns `NULL`, which the client then reads through. -/
def requestBody (stored : Bool) (args : Args) (j : Nat) : Sys (Option Body) :=
  match args.command with
  | .Ping => pure (some (castBody stored (genStrDirect args.valueConfig j)))
  | .Quit => pure (some (.ofNull 0))
  | .Write =>
    let key := genStrDirect args.keyConfig j
    let value := genStrDirect args.valueConfig j
    Option.map Body.bytes <$>
      WriteRequest.make key (.ofNat key.length) value (.ofNat value.length)
  | .Read => pure (some (castBody stored (genStrDirect args.keyConfig j)))

/-- The body of the request number `j` can be read. -/
def Args.Readable (stored : Bool) (args : Args) (j : Nat) : Prop :=
  match args.command with
  | .Ping => stored = true ∨ genStrDirect args.valueConfig j = []
  | .Quit | .Write => True
  | .Read => stored = true ∨ genStrDirect args.keyConfig j = []

/-- Where the client is: at its start, at the head of the loop over connections, at the head of
the loop over the requests of a connection, just after it has accepted a response, in the loop that
waits, or after its exit with a status or by a fault. -/
inductive ClientPc
  | start
  | connect (logFd : Fd) (i : Nat) (nextRpcId : UInt32)
  | request (logFd : Fd) (i : Nat) (nextRpcId : UInt32) (connection : Connection) (j : Nat)
  | accepted (logFd : Fd) (i : Nat) (nextRpcId : UInt32) (connection : Connection) (j : Nat)
      (response : Frame)
  | wait (logFd : Fd) (i : Nat) (nextRpcId : UInt32) (connection : Connection) (j : Nat)
      (response : Frame)
  | exited (status : Int32)
  | faulted
  deriving DecidableEq

def clientLogFn : Bytes := ascii "client.log"

def clientCode (stored : Bool) (args : Args) : ClientPc → Sys ClientPc
  | .start => do
    let some logFd ← sys (.creat clientLogFn) | return .exited 1
    return .connect logFd 0 1
  | .connect logFd i nextRpcId => do
    if i < args.nConns.toNat then
      match ← tcpConnect args.server args.port with
      | .error _ => return .exited 1
      | .ok connection => return .request logFd i nextRpcId connection 0
    else return .exited 0
  | .request logFd i nextRpcId connection j => do
    if j < args.rpcsPerConn.toNat then
      let some body ← requestBody stored args j | return .faulted
      -- What `rpc_send_req` returns is not looked at.
      let (_, nextRpcId) ← rpcSendReq connection body 0 args.commandStr logFd nextRpcId
      let some response ← rpcRecvResp connection | return .exited 1
      return .accepted logFd i nextRpcId connection j response
    else
      let _ ← sys (.close connection.sockFd)
      return .connect logFd (i + 1) nextRpcId
  | .accepted logFd i nextRpcId connection j response => do
    let _ ← log logFd response.message
    return .wait logFd i nextRpcId connection j response
  | .wait logFd i nextRpcId connection j response => do
    let some now ← nowUsec | return .exited 1
    if now - response.header.resRecvTimeUs < (args.waitMs * 1000).toUInt64 then
      return .wait logFd i nextRpcId connection j response
    else return .request logFd i nextRpcId connection (j + 1)
  | .exited status => return .exited status
  | .faulted => return .faulted

/-- The client is over. -/
def ClientPc.over : ClientPc → Bool
  | .exited _ | .faulted => true
  | _ => false

/-- `main`, of the client. -/
def client (stored : Bool) (args : Args) : Process SysOp SysOp.Result ClientPc where
  code := clientCode stored args
  halted := ClientPc.over

end Program

end SoftwareDynamics.Network

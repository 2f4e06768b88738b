import SoftwareDynamics.ProofKit.Process
import SoftwareDynamics.ProofKit.Bytes

/-! What the programs of this chapter ask of the world around them: system calls, memory, and the
two blocks that run under the server's spinlock. -/

namespace SoftwareDynamics.Network

open ProofKit

/-- A file descriptor. -/
abbrev Fd := Int32

abbrev Errno := Int32

def ENOANO : Errno := 55

/-- A string that ends at its first zero byte, which is not part of it. -/
structure CString where
  bytes : Bytes
  noNul : 0 ∉ bytes
  deriving DecidableEq

/-- The bytes of a string of ASCII characters. -/
def ascii (s : String) : Bytes := s.toList.map fun c => .ofNat c.toNat

/-- An address and a port, in network byte order. -/
structure SockAddrIn where
  sinAddr : UInt32
  sinPort : UInt16
  deriving DecidableEq

/-- `sizeof(sockaddr_in)` -/
def sockAddrLen : Nat := 16

structure Timeval where
  tvSec : Int64
  tvUsec : Int64
  deriving DecidableEq

/-- The microseconds that `now_usec` makes of the time of day. -/
def Timeval.usec (now : Timeval) : UInt64 := (now.tvSec * 1000 * 1000 + now.tvUsec).toUInt64

/-- A key of the keystore, whose length came from an 8-bit field. -/
abbrev Key := { bs : Bytes // bs.length < 2 ^ 8 }

/-- A value of the keystore, whose length came from a 32-bit field. -/
abbrev Value := { bs : Bytes // bs.length < 2 ^ 32 }

/-- An operation.  `indeterminate` looks at bytes that nothing has initialized, and `emplace` and
`find` are the blocks that the server runs on its keystore under the spinlock. -/
inductive SysOp
  | read (fd : Fd) (count : Nat)
  | write (fd : Fd) (buf : Bytes)
  | close (fd : Fd)
  | creat (path : Bytes)
  | socket
  | bind (fd : Fd) (port : UInt16)
  | listen (fd : Fd) (backlog : Int32)
  | accept (fd : Fd)
  | inetPton (src : CString)
  | connect (fd : Fd) (addr : SockAddrIn)
  | getsockname (fd : Fd)
  | gettimeofday
  | malloc (size : Nat)
  | indeterminate (size : Nat)
  | emplace (key : Key) (value : Value)
  | find (key : Bytes)
  deriving DecidableEq

/-- The result of an operation.  A `read` or `write` that fails has the result `none`, and one that
succeeds tells which bytes were read or how many were written.  `accept` and `getsockname` also
tell the length of the address that they report. -/
abbrev SysOp.Result : SysOp → Type
  | .read _ count => Option { bs : Bytes // bs.length ≤ count }
  | .write _ buf => Option (Fin (buf.length + 1))
  | .close _ => Bool
  | .creat _ => Option Fd
  | .socket => Except Errno Fd
  | .bind _ _ => Except Errno Unit
  | .listen _ _ => Except Errno Unit
  | .accept _ => Except Errno (Fd × SockAddrIn × Nat)
  | .inetPton _ => Except Errno (Option UInt32)
  | .connect _ _ => Except Errno Unit
  | .getsockname _ => Except Errno (SockAddrIn × Nat)
  | .gettimeofday => Option Timeval
  | .malloc _ => Bool
  | .indeterminate size => Octets size
  | .emplace _ _ => Unit
  | .find _ => Option Value

/-- A program of this chapter. -/
abbrev Sys := Prog SysOp SysOp.Result

/-- Performs one operation. -/
abbrev sys (op : SysOp) : Sys op.Result := .perform op

end SoftwareDynamics.Network

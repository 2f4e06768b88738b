import SoftwareDynamics.Network.Service
import SoftwareDynamics.Network.Client
import SoftwareDynamics.ProofKit.Threads

/-! A client process and the server, joined by their connections.  The bytes that one end of a
connection sends are the bytes that the other end gets, later and in pieces.  No operation fails.
The server's other listener threads serve other clients, and share the keystore. -/

namespace SoftwareDynamics.Network

open ProofKit Prog

section Hosts

/-- What an open descriptor refers to: a log, a socket that is not connected, or one end of a
connection. -/
inductive File
  | log
  | socket
  | connection (n : Nat)
  deriving DecidableEq

/-- One side: its open descriptors, how many connections it has opened, what it has got and sent on
each of them and whether it has closed it, and the readings of its clock in reverse order. -/
structure Host where
  files : Fd → Option File
  conns : Nat
  got : Nat → Bytes
  sent : Nat → Bytes
  closed : Nat → Bool
  clock : List UInt64

namespace Host

def init : Host := ⟨fun _ => none, 0, fun _ => [], fun _ => [], fun _ => false, []⟩

def openFile (h : Host) (fd : Fd) (file : File) : Host :=
  { h with files := Function.update h.files fd (some file) }

/-- The descriptor becomes one end of the next connection. -/
def connect (h : Host) (fd : Fd) : Host :=
  { h.openFile fd (.connection h.conns) with conns := h.conns + 1 }

def close (h : Host) (fd : Fd) : Host :=
  { h with
    files := Function.update h.files fd none
    closed := match h.files fd with
      | some (.connection n) => Function.update h.closed n true
      | _ => h.closed }

def receive (h : Host) (n : Nat) (chunk : Bytes) : Host :=
  { h with got := Function.update h.got n (h.got n ++ chunk) }

def send (h : Host) (n : Nat) (buf : Bytes) : Host :=
  { h with sent := Function.update h.sent n (h.sent n ++ buf) }

def look (h : Host) (now : UInt64) : Host := { h with clock := now :: h.clock }

/-- What an operation does to its own side.  What may arrive is left open. -/
def act (h : Host) (op : SysOp) (r : op.Result) (h' : Host) : Prop :=
  match op, r with
  | .read fd _, some chunk =>
    ∃ n, h.files fd = some (.connection n) ∧ h' = h.receive n chunk.1
  | .write fd buf, r => r = some (Fin.last buf.length) ∧
    (h.files fd = some .log ∧ h' = h ∨
      ∃ n, h.files fd = some (.connection n) ∧ h' = h.send n buf)
  | .close fd, r => r = true ∧ (h.files fd).isSome ∧ h' = h.close fd
  | .creat _, some fd => h.files fd = none ∧ h' = h.openFile fd .log
  | .socket, .ok fd => h.files fd = none ∧ h' = h.openFile fd .socket
  | .bind fd _, .ok () | .listen fd _, .ok () => h.files fd = some .socket ∧ h' = h
  | .inetPton _, .ok _ => h' = h
  | .connect fd _, .ok () => h.files fd = some .socket ∧ h' = h.connect fd
  | .accept fd, .ok (peerFd, _, addrLen) =>
    addrLen = sockAddrLen ∧ h.files fd = some .socket ∧ h.files peerFd = none ∧
      h' = h.connect peerFd
  | .getsockname _, .ok (_, addrLen) => addrLen = sockAddrLen ∧ h' = h
  | .gettimeofday, some now => h' = h.look now.usec
  | .malloc _, r => r = true ∧ h' = h
  | .indeterminate _, _ | .emplace _ _, _ | .find _, _ => h' = h
  | _, _ => False

variable {h h' : Host} {fd fd' : Fd}

/-- Descriptors of different files differ. -/
theorem fd_ne {file file' : Option File} (hfd : h.files fd = file) (hfd' : h.files fd' = file')
    (hne : file ≠ file') : fd ≠ fd' := by
  rintro rfl
  exact hne (hfd.symm.trans hfd')

theorem act_socket {r : Except Errno Fd} (hact : h.act .socket r h') :
    ∃ fd, r = .ok fd ∧ h.files fd = none ∧ h' = h.openFile fd .socket := by
  rcases r with _ | fd
  · exact hact.elim
  · exact ⟨fd, rfl, hact⟩

theorem act_bind {port : UInt16} {r : Except Errno Unit} (hact : h.act (.bind fd port) r h') :
    r = .ok () ∧ h' = h := by
  rcases r with _ | ⟨⟩
  · exact hact.elim
  · exact ⟨rfl, hact.2⟩

theorem act_listen {backlog : Int32} {r : Except Errno Unit}
    (hact : h.act (.listen fd backlog) r h') : r = .ok () ∧ h' = h := by
  rcases r with _ | ⟨⟩
  · exact hact.elim
  · exact ⟨rfl, hact.2⟩

theorem act_inetPton {s : CString} {r : Except Errno (Option UInt32)}
    (hact : h.act (.inetPton s) r h') : ∃ parsed, r = .ok parsed ∧ h' = h := by
  rcases r with _ | parsed
  · exact hact.elim
  · exact ⟨parsed, rfl, hact⟩

theorem act_connect {addr : SockAddrIn} {r : Except Errno Unit}
    (hact : h.act (.connect fd addr) r h') :
    r = .ok () ∧ h.files fd = some .socket ∧ h' = h.connect fd := by
  rcases r with _ | ⟨⟩
  · exact hact.elim
  · exact ⟨rfl, hact⟩

theorem act_accept {r : Except Errno (Fd × SockAddrIn × Nat)} (hact : h.act (.accept fd) r h') :
    ∃ peerFd addr, r = .ok (peerFd, addr, sockAddrLen) ∧ h.files peerFd = none ∧
      h' = h.connect peerFd := by
  rcases r with _ | ⟨peerFd, addr, addrLen⟩
  · exact hact.elim
  · obtain ⟨rfl, -, hfree⟩ := hact
    exact ⟨peerFd, addr, rfl, hfree⟩

theorem act_getsockname {r : Except Errno (SockAddrIn × Nat)}
    (hact : h.act (.getsockname fd) r h') : ∃ addr, r = .ok (addr, sockAddrLen) ∧ h' = h := by
  rcases r with _ | ⟨addr, addrLen⟩
  · exact hact.elim
  · obtain ⟨rfl, rfl⟩ := hact
    exact ⟨addr, rfl, rfl⟩

end Host

/-- What an operation does to a store. -/
def StoreOps.act {κ : Type} (ops : StoreOps κ) (k : κ) (op : SysOp) (r : op.Result) (k' : κ) :
    Prop :=
  match op, r with
  | .emplace key value, _ => ops.emplace k key value k'
  | .find key, r => ops.find k key r k'
  | _, _ => k' = k

end Hosts

section System

inductive Side
  | client
  | server
  deriving DecidableEq

def Side.other : Side → Side
  | .client => .server
  | .server => .client

theorem Side.other_ne (side : Side) : side.other ≠ side := by cases side <;> nofun

/-- The two sides, and the keystore of the server. -/
structure Net where
  hosts : Side → Host
  keystore : Keystore

/-- What one side may get from the other: the next bytes of what that side has sent, the end of it
once that side has closed the connection, and its connections one after the other, if it has a
socket that they go to. -/
def Host.Gets (h peer : Host) (op : SysOp) (r : op.Result) : Prop :=
  match op, r with
  | .read fd _, some chunk => ∀ n, h.files fd = some (.connection n) →
    if chunk.1 = [] then peer.closed n ∧ h.got n = peer.sent n
    else h.got n ++ chunk.1 <+: peer.sent n
  | .connect _ _, _ => ∃ fd, peer.files fd = some .socket
  | .accept _, _ => h.conns < peer.conns
  | _, _ => True

/-- A net in which a side has become another one. -/
def Net.set (s : Net) (side : Side) (h : Host) : Net :=
  { s with hosts := Function.update s.hosts side h }

@[simp] theorem Net.set_hosts_self (s : Net) (side : Side) (h : Host) :
    (s.set side h).hosts side = h := by simp [set]

@[simp] theorem Net.set_hosts_of_ne (s : Net) {side side' : Side} (h : Host) (hne : side' ≠ side) :
    (s.set side h).hosts side' = s.hosts side' := by simp [set, hne]

@[simp] theorem Net.set_keystore (s : Net) (side : Side) (h : Host) :
    (s.set side h).keystore = s.keystore := rfl

@[simp] theorem Net.set_set (s : Net) (side : Side) (h h' : Host) :
    (s.set side h).set side h' = s.set side h' := by simp [set]

@[simp] theorem Net.set_self (s : Net) (side : Side) :
    s.set side (s.hosts side) = s := by simp [set]

/-- Only the server has the keystore. -/
def Side.stores (side : Side) (keystore : Keystore) (op : SysOp) (r : op.Result)
    (keystore' : Keystore) : Prop :=
  match side with
  | .client => keystore' = keystore
  | .server => StoreOps.alone.act keystore op r keystore'

/-- The world around the program of one side. -/
def netEnv (side : Side) : Env SysOp SysOp.Result Net where
  allows _ _ := True
  act s op r s' := ∃ h keystore, (s.hosts side).act op r h ∧
    (s.hosts side).Gets (s.hosts side.other) op r ∧ side.stores s.keystore op r keystore ∧
    s' = ⟨Function.update s.hosts side h, keystore⟩

/-- The world around another listener thread of the server: its operations may have any results,
and change nothing but the keystore. -/
def otherEnv : Env SysOp SysOp.Result Net where
  allows _ _ := True
  act s op r s' := ∃ keystore, StoreOps.alone.act s.keystore op r keystore ∧
    s' = ⟨s.hosts, keystore⟩

/-- The client, the listener thread that it connects to, and the other listener threads. -/
inductive Party (T : Type)
  | client
  | server
  | other (t : T)
  deriving DecidableEq

abbrev Party.Pc {T : Type} : Party T → Type
  | .client => ClientPc
  | _ => ListenPc

variable {T : Type}

/-- What each party runs. -/
def party (stored : Bool) (args : Args) (ports : T → Int32) :
    (p : Party T) → Process SysOp SysOp.Result p.Pc
  | .client => client stored args
  | .server => rpcListen (.ofNat args.port.toNat)
  | .other t => rpcListen (ports t)

def partyEnv : Party T → Env SysOp SysOp.Result Net
  | .client => netEnv .client
  | .server => netEnv .server
  | .other _ => otherEnv

/-- The code in progress of each party, and what they share. -/
abbrev NetConfig (T : Type) := Config (Party T) (fun p => Sys p.Pc) Net

def net (stored : Bool) (args : Args) (ports : T → Int32) :
    Threads (Party T) (fun p => Sys p.Pc) Net :=
  .ofProcess (party stored args ports) partyEnv

/-- Every party is at its start. -/
def netInit (T : Type) (keystore : Keystore) : NetConfig T where
  own
    | .client => .ret .start
    | .server => .ret .start
    | .other _ => .ret .start
  shared := ⟨fun _ => .init, keystore⟩

end System

end SoftwareDynamics.Network

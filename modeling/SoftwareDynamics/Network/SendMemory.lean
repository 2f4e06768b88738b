import SoftwareDynamics.ProofKit.Memory
import SoftwareDynamics.Network.Lengths
import SoftwareDynamics.Network.RoundTrip

/-! `RPCMessage::send` of `rpc.cc`, which writes a message as it lies in memory.  What follows the
header there is the pointer to the body, and not the body. -/

namespace SoftwareDynamics.Network

open ProofKit Prog

section Model

/-- `sizeof(RPCMessage)` -/
def messageSize : Nat := markSize + headerSize + 8

/-- `write(sock_fd, buf, n)`, with -1 as `none`. -/
def writeOut (sockFd : Fd) (buf : Bytes) : Sys (Option Nat) :=
  (fun r : Option (Fin (buf.length + 1)) => r.map Fin.val) <$> sys (.write sockFd buf)

/-- What `send` does for the message at the address `this`, unless it reads outside all objects. -/
def RPCMessage.send (memory : Memory) (this : Nat) (sockFd : Fd) : Option (Sys (Option Nat)) := do
  let mark := RPCMark.ofBytes (← memory.load this markSize)
  let nBytes := markSize + mark.headerLen.toNat + mark.dataLen.toNat
  let buf ← memory.load this nBytes
  return writeOut sockFd buf

/-- Where a message and its body lie. -/
structure Placement (f : Frame) where
  this : Nat
  body : Nat
  this_fits : this + messageSize ≤ 2 ^ 64
  body_fits : body + f.data.length ≤ 2 ^ 64
  apart : this + messageSize ≤ body ∨ body + f.data.length ≤ this

/-- A message in memory: its mark, its header and the pointer to its body. -/
def Placement.message {f : Frame} (place : Placement f) : Bytes :=
  f.mark.toBytes ++ f.header.toBytes ++ le64 (.ofNat place.body)

/-- The message, its body and no other object. -/
def Placement.memory {f : Frame} (place : Placement f) : Memory :=
  (Memory.object place.this place.message).union (Memory.object place.body f.data)

/-- These are the bytes that the two `write`s of `rpc_send_req` and `rpc_send_resp` put on a
connection. -/
def SentInTwo (f : Frame) (buf : Bytes) : Prop :=
  ∀ (connection : Connection) (logFd : Fd) (s : Link), logFd ≠ connection.sockFd →
    Exec (linkEnv connection.sockFd)
      (sendMessage connection f.message f.data logFd) ⟨[], .header⟩ (some ()) s → s.output = buf

/-- A receiver at which these bytes arrive, cut in any way, gets the message. -/
def Decoded (f : Frame) (buf : Bytes) : Prop :=
  ∀ (connection : Connection) (logFd : Fd) (keystore : Keystore) (message : Option Frame)
    (e : Endpoint Keystore),
    Exec (streamEnv connection logFd buf) (rpcRecvReq connection) (.fresh keystore) message e →
    ∃ now, message = some (f.reqReceived now)

/-- Wherever the message lies, `send` reads nothing else and writes its mark, its header and its
body, which is what the other way of sending puts on a connection and a receiver decodes. -/
def SendAgrees (f : Frame) : Prop :=
  ∀ (place : Placement f) (sockFd : Fd), ∃ buf,
    RPCMessage.send place.memory place.this sockFd = some (writeOut sockFd buf) ∧
    buf = f.mark.toBytes ++ f.header.toBytes ++ f.data ∧ SentInTwo f buf ∧ Decoded f buf

end Model

section Proof

variable {f : Frame}

theorem sentInTwo (f : Frame) : SentInTwo f f.toBytes := by
  intro connection logFd s hlog hexec
  exact (hexec.of_wp (wp_sendMessage_wire f.message) rfl).2 hlog

theorem decoded (f : Frame) : Decoded f f.toBytes := by
  intro connection logFd keystore message e hexec
  have hnext := @wp_recvStamped_next connection logFd (.fresh keystore) f.toBytes .reqReceived f []
    (by simp [Endpoint.fresh])
  exact (hexec.of_wp hnext).1

theorem writeOut_inj {sockFd : Fd} {buf buf' : Bytes}
    (h : writeOut sockFd buf = writeOut sockFd buf') : buf = buf' := by
  injection h with hop
  exact (SysOp.write.inj hop).2

theorem Placement.message_length (place : Placement f) : place.message.length = messageSize := by
  simp [message, messageSize, Nat.add_assoc]

/-- How many bytes `send` writes. -/
theorem send_eq (place : Placement f) (sockFd : Fd) :
    RPCMessage.send place.memory place.this sockFd =
      (place.memory.load place.this (markSize + headerSize + f.data.length)).map
        (writeOut sockFd) := by
  have hmark : place.memory.load place.this markSize = some f.mark.toBytes := by
    rw [Placement.memory, Memory.load_object (by simp [place.message_length, messageSize]; omega),
      Placement.message, List.append_assoc, List.take_left' f.mark.toBytes_length]
  simp only [RPCMessage.send, hmark, Option.bind_eq_bind, Option.bind_some,
    RPCMark.ofBytes_toBytes, f.headerLen_eq, f.dataLen_eq]
  cases place.memory.load place.this (markSize + headerSize + f.data.length) <;> rfl

theorem sendAgrees_of_nil (h : f.data = []) : SendAgrees f := by
  intro place sockFd
  have hbytes : f.toBytes = f.mark.toBytes ++ f.header.toBytes := by simp [Frame.toBytes, h]
  have hload : place.memory.load place.this (markSize + headerSize + f.data.length) =
      some f.toBytes := by
    rw [Placement.memory, Memory.load_object (by simp [place.message_length, messageSize, h]),
      Placement.message, h, List.take_left' (by simp), hbytes]
  refine ⟨f.toBytes, ?_, rfl, sentInTwo f, decoded f⟩
  rw [send_eq, hload]
  rfl

/-- A message and its body in memory, where the lowest byte of the address of the body is `low`. -/
def Placement.low (f : Frame) (low : UInt8) : Placement f where
  this := 0
  body := 256 + low.toNat
  this_fits := by decide
  body_fits := by
    have hlow := low.toNat_lt
    have hlen := f.mark.dataLen.toNat_lt
    have hdata := f.dataLen_eq
    omega
  apart := .inl (Nat.le_trans (show 0 + messageSize ≤ 256 by decide) (Nat.le_add_right _ _))

/-- Behind the header, `send` writes the pointer to the body. -/
theorem Placement.low_pointer (f : Frame) (low : UInt8) :
    (Placement.low f low).memory (0 + (markSize + headerSize)) = some low := by
  have hlt : markSize + headerSize < (Placement.low f low).message.length := by
    simp [Placement.message_length, messageSize]
  have hlow := low.toNat_lt
  have hbyte : UInt8.ofNat (UInt64.ofNat (256 + low.toNat)).toNat = low := by
    apply UInt8.toNat_inj.mp
    rw [UInt64.toNat_ofNat', UInt8.toNat_ofNat']
    omega
  rw [Placement.memory]
  refine (Memory.union_object hlt).trans ?_
  rw [Placement.message, List.getElem?_append_right (by simp), List.length_append,
    RPCMark.toBytes_length, RPCHeader.toBytes_length, Nat.sub_self]
  exact congrArg some hbyte

theorem SendAgrees.data_eq_nil (h : SendAgrees f) : f.data = [] := by
  by_contra hne
  obtain ⟨d, ds, hdata⟩ := List.exists_cons_of_ne_nil hne
  obtain ⟨buf, hsend, rfl, -⟩ := h (.low f (d + 1)) 0
  rw [send_eq, Option.map_eq_some_iff] at hsend
  obtain ⟨buf, hload, hbuf⟩ := hsend
  obtain rfl := writeOut_inj hbuf
  obtain ⟨-, hat⟩ := Memory.load_eq_some_iff.mp hload
  have hfirst := hat (markSize + headerSize) (by simp [hdata])
  rw [hdata, List.getElem?_append_right (by simp)] at hfirst
  have hbyte := (Placement.low_pointer f (d + 1)).symm.trans hfirst
  simp at hbyte

/-- The two ways of sending a message agree just when it has no body. -/
theorem sendAgrees_iff (f : Frame) : SendAgrees f ↔ f.data = [] :=
  ⟨SendAgrees.data_eq_nil, sendAgrees_of_nil⟩

/-- The body of one byte is not sent. -/
theorem not_sendAgrees_one : ¬SendAgrees (.request (ascii "ping") [1] (by decide)) :=
  fun h => List.cons_ne_nil 1 [] h.data_eq_nil

end Proof

end SoftwareDynamics.Network

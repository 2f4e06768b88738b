import SoftwareDynamics.ProofKit.Bytes
import Mathlib.Tactic.SplitIfs

/-! The messages of `rpc.h`.  An RPC request or response starts with a mark, followed by a header,
followed by the argument or result bytes. -/

namespace SoftwareDynamics.Network

open ProofKit

section Layout

def MARK_SIGNATURE : UInt32 := 0xdeadbeef

structure RPCMark where
  signature : UInt32
  headerLen : UInt32
  dataLen : UInt32
  checksum : UInt32
  deriving DecidableEq

/-- A message type, which may be any 16-bit number. -/
structure RpcMessageType where
  value : UInt16
  deriving DecidableEq

def RpcMessageType.Request : RpcMessageType := ⟨0⟩

def RpcMessageType.Response : RpcMessageType := ⟨1⟩

/-- A status, which may be any 32-bit number. -/
structure RpcStatus where
  value : UInt32
  deriving DecidableEq

def RpcStatus.Ok : RpcStatus := ⟨0⟩

def RpcStatus.BadArg : RpcStatus := ⟨1⟩

def RpcStatus.NotFound : RpcStatus := ⟨2⟩

structure RPCHeader where
  rpcId : UInt32
  parent : UInt32
  reqSendTimeUs : UInt64
  reqRecvTimeUs : UInt64
  resSendTimeUs : UInt64
  resRecvTimeUs : UInt64
  clientIp : UInt32
  serverIp : UInt32
  clientPort : UInt16
  serverPort : UInt16
  reqLenLog : UInt8
  resLenLog : UInt8
  messageType : RpcMessageType
  method : Octets 8
  status : RpcStatus
  pad : Octets 4
  deriving DecidableEq

/-- `sizeof(RPCMark)` -/
def markSize : Nat := 16

/-- `sizeof(RPCHeader)` -/
def headerSize : Nat := 72

namespace RPCMark

/-- The fields, in the order and the sizes that they have in memory. -/
def fields (m : RPCMark) : List Bytes :=
  [le32 m.signature, le32 m.headerLen, le32 m.dataLen, le32 m.checksum]

def sizes : List Nat := [4, 4, 4, 4]

def toBytes (m : RPCMark) : Bytes := m.fields.flatten

def ofFields (fields : List Bytes) : RPCMark :=
  let field := fun i => fields.getD i []
  { signature := ofLe32 (field 0)
    headerLen := ofLe32 (field 1)
    dataLen := ofLe32 (field 2)
    checksum := ofLe32 (field 3) }

def ofBytes (bs : Bytes) : RPCMark := ofFields (split sizes bs)

theorem fields_sizes (m : RPCMark) : m.fields.map List.length = sizes := by simp [fields, sizes]

@[simp] theorem toBytes_length (m : RPCMark) : m.toBytes.length = markSize := by
  rw [toBytes, List.length_flatten, fields_sizes]
  rfl

@[simp] theorem ofBytes_toBytes (m : RPCMark) : ofBytes m.toBytes = m := by
  have hsplit := split_flatten m.fields []
  rw [fields_sizes, List.append_nil] at hsplit
  rw [ofBytes, toBytes, hsplit]
  simp [ofFields, fields]

theorem toBytes_ofBytes {bs : Bytes} (h : bs.length = markSize) : (ofBytes bs).toBytes = bs := by
  have hlen : (split sizes bs).map List.length = sizes := split_lengths h
  have hflat : (split sizes bs).flatten = bs :=
    (flatten_split sizes bs).trans (List.take_of_length_le (Nat.le_of_eq h))
  simp only [sizes, split, List.map_cons, List.map_nil, List.cons.injEq] at hlen hflat
  obtain ⟨h0, h1, h2, h3, -⟩ := hlen
  simp only [toBytes, fields, ofBytes, ofFields, sizes, split, List.getD_cons_zero,
    List.getD_cons_succ, le32_ofLe32 h0, le32_ofLe32 h1, le32_ofLe32 h2, le32_ofLe32 h3, hflat]

end RPCMark

namespace RPCHeader

/-- The fields, in the order and the sizes that they have in memory. -/
def fields (h : RPCHeader) : List Bytes :=
  [le32 h.rpcId, le32 h.parent, le64 h.reqSendTimeUs, le64 h.reqRecvTimeUs, le64 h.resSendTimeUs,
    le64 h.resRecvTimeUs, le32 h.clientIp, le32 h.serverIp, le16 h.clientPort, le16 h.serverPort,
    [h.reqLenLog], [h.resLenLog], le16 h.messageType.value, h.method.1, le32 h.status.value,
    h.pad.1]

def sizes : List Nat := [4, 4, 8, 8, 8, 8, 4, 4, 2, 2, 1, 1, 2, 8, 4, 4]

def toBytes (h : RPCHeader) : Bytes := h.fields.flatten

def ofFields (fields : List Bytes) : RPCHeader :=
  let field := fun i => fields.getD i []
  { rpcId := ofLe32 (field 0)
    parent := ofLe32 (field 1)
    reqSendTimeUs := ofLe64 (field 2)
    reqRecvTimeUs := ofLe64 (field 3)
    resSendTimeUs := ofLe64 (field 4)
    resRecvTimeUs := ofLe64 (field 5)
    clientIp := ofLe32 (field 6)
    serverIp := ofLe32 (field 7)
    clientPort := ofLe16 (field 8)
    serverPort := ofLe16 (field 9)
    reqLenLog := (field 10).headD 0
    resLenLog := (field 11).headD 0
    messageType := ⟨ofLe16 (field 12)⟩
    method := .fit 8 (field 13)
    status := ⟨ofLe32 (field 14)⟩
    pad := .fit 4 (field 15) }

def ofBytes (bs : Bytes) : RPCHeader := ofFields (split sizes bs)

theorem fields_sizes (h : RPCHeader) : h.fields.map List.length = sizes := by
  simp [fields, sizes, h.method.2, h.pad.2]

@[simp] theorem toBytes_length (h : RPCHeader) : h.toBytes.length = headerSize := by
  rw [toBytes, List.length_flatten, fields_sizes]
  rfl

@[simp] theorem ofBytes_toBytes (h : RPCHeader) : ofBytes h.toBytes = h := by
  have hsplit := split_flatten h.fields []
  rw [fields_sizes, List.append_nil] at hsplit
  rw [ofBytes, toBytes, hsplit]
  simp [ofFields, fields, Octets.fit_eq h.method.2, Octets.fit_eq h.pad.2]

theorem toBytes_ofBytes {bs : Bytes} (h : bs.length = headerSize) : (ofBytes bs).toBytes = bs := by
  have hlen : (split sizes bs).map List.length = sizes := split_lengths h
  have hflat : (split sizes bs).flatten = bs :=
    (flatten_split sizes bs).trans (List.take_of_length_le (Nat.le_of_eq h))
  simp only [sizes, split, List.map_cons, List.map_nil, List.cons.injEq] at hlen hflat
  obtain ⟨h0, h1, h2, h3, h4, h5, h6, h7, h8, h9, h10, h11, h12, h13, h14, h15, -⟩ := hlen
  have head {xs : Bytes} (hx : xs.length = 1) : [xs.headD 0] = xs := by
    obtain ⟨x, rfl⟩ := List.length_eq_one_iff.mp hx
    rfl
  simp only [toBytes, fields, ofBytes, ofFields, sizes, split, List.getD_cons_zero,
    List.getD_cons_succ, le32_ofLe32 h0, le32_ofLe32 h1, le64_ofLe64 h2, le64_ofLe64 h3,
    le64_ofLe64 h4, le64_ofLe64 h5, le32_ofLe32 h6, le32_ofLe32 h7, le16_ofLe16 h8,
    le16_ofLe16 h9, head h10, head h11, le16_ofLe16 h12, Octets.fit_eq h13, le32_ofLe32 h14,
    Octets.fit_eq h15, hflat]

end RPCHeader

/-- The bytes of a mark and a header tell both. -/
theorem markAndHeader_inj {mark mark' : RPCMark} {header header' : RPCHeader}
    (h : mark.toBytes ++ header.toBytes = mark'.toBytes ++ header'.toBytes) :
    mark = mark' ∧ header = header' := by
  obtain ⟨hmark, hheader⟩ := List.append_inj h (by simp)
  constructor
  · rw [← RPCMark.ofBytes_toBytes mark, hmark, RPCMark.ofBytes_toBytes]
  · rw [← RPCHeader.ofBytes_toBytes header, hheader, RPCHeader.ofBytes_toBytes]

/-- A message in memory, whose body may be `NULL`. -/
structure RPCMessage where
  mark : RPCMark
  header : RPCHeader
  body : Option Bytes
  deriving DecidableEq

end Layout

section Frames

/-- A message as a receiver accepts it: its mark tells the lengths of its header and its data. -/
structure Frame where
  mark : RPCMark
  header : RPCHeader
  data : Bytes
  headerLen_eq : mark.headerLen.toNat = headerSize
  dataLen_eq : mark.dataLen.toNat = data.length
  deriving DecidableEq

namespace Frame

def message (f : Frame) : RPCMessage := ⟨f.mark, f.header, some f.data⟩

/-- A request with the time at which it was received. -/
def reqReceived (f : Frame) (reqRecvTimeUs : UInt64) : Frame :=
  { f with header := { f.header with reqRecvTimeUs } }

/-- A response with the time at which it was received. -/
def resReceived (f : Frame) (resRecvTimeUs : UInt64) : Frame :=
  { f with header := { f.header with resRecvTimeUs } }

@[simp] theorem reqReceived_self (f : Frame) : f.reqReceived f.header.reqRecvTimeUs = f := rfl

def toBytes (f : Frame) : Bytes := f.mark.toBytes ++ f.header.toBytes ++ f.data

/-- A request with all fields zero but for its method and its data. -/
def request (method : Bytes) (data : Bytes) (h : data.length < 2 ^ 32) : Frame where
  mark := ⟨MARK_SIGNATURE, 72, .ofNat data.length, 0⟩
  header := {
    rpcId := 0, parent := 0, reqSendTimeUs := 0, reqRecvTimeUs := 0, resSendTimeUs := 0
    resRecvTimeUs := 0, clientIp := 0, serverIp := 0, clientPort := 0, serverPort := 0
    reqLenLog := 0, resLenLog := 0, messageType := .Request, method := .fit 8 method
    status := .Ok, pad := .fit 4 [] }
  data := data
  headerLen_eq := rfl
  dataLen_eq := UInt32.toNat_ofNat_of_lt' h

/-- The response to a request, whose mark and header are those of the request but for a few
fields. -/
def response (request : Frame) (body : Bytes) (h : body.length < 2 ^ 32) (status : RpcStatus)
    (resSendTimeUs : UInt64) (resLenLog : UInt8) : Frame where
  mark := { request.mark with dataLen := .ofNat body.length }
  header := { request.header with
    resSendTimeUs
    resLenLog
    messageType := .Response
    status }
  data := body
  headerLen_eq := request.headerLen_eq
  dataLen_eq := UInt32.toNat_ofNat_of_lt' h

theorem toBytes_length (f : Frame) : f.toBytes.length = markSize + headerSize + f.data.length := by
  simp [toBytes, Nat.add_assoc]

/-- The first complete frame of a stream, and what follows it. -/
def first (bs : Bytes) : Option (Frame × Bytes) :=
  let mark := RPCMark.ofBytes (bs.take markSize)
  let header := RPCHeader.ofBytes ((bs.drop markSize).take headerSize)
  let rest := bs.drop (markSize + headerSize)
  if h : mark.headerLen.toNat = headerSize ∧
      markSize + headerSize + mark.dataLen.toNat ≤ bs.length then
    some (⟨mark, header, rest.take mark.dataLen.toNat, h.1, by
      rw [List.length_take, List.length_drop]; omega⟩, rest.drop mark.dataLen.toNat)
  else none

theorem first_eq_none_of_lt {bs : Bytes} (h : bs.length < markSize + headerSize) :
    first bs = none := by
  simp only [first]
  rw [dif_neg (by omega)]

/-- A mark that announces another header is the start of no frame. -/
theorem first_eq_none_of_mark {bs rest : Bytes} (hlen : bs.length = markSize)
    (h : (RPCMark.ofBytes bs).headerLen.toNat ≠ headerSize) : first (bs ++ rest) = none := by
  simp only [first, List.take_left' hlen]
  rw [dif_neg fun hc => h hc.1]

/-- A mark and less than what it announces are no frame. -/
theorem first_eq_none_of_short {mark : RPCMark} {behind : Bytes}
    (h : behind.length < headerSize + mark.dataLen.toNat) :
    first (mark.toBytes ++ behind) = none := by
  simp only [first, List.take_left' mark.toBytes_length, RPCMark.ofBytes_toBytes,
    List.length_append, RPCMark.toBytes_length]
  rw [dif_neg (by omega)]

theorem first_append (f : Frame) (rest : Bytes) : first (f.toBytes ++ rest) = some (f, rest) := by
  obtain ⟨mark, header, data, hheader, hdata⟩ := f
  have hmark : (mark.toBytes ++ header.toBytes ++ data ++ rest).take markSize = mark.toBytes := by
    rw [List.append_assoc, List.append_assoc, List.take_left' mark.toBytes_length]
  have hrest : (mark.toBytes ++ header.toBytes ++ data ++ rest).drop (markSize + headerSize) =
      data ++ rest := by
    rw [List.append_assoc, List.drop_left' (by simp)]
  have hhead : ((mark.toBytes ++ header.toBytes ++ data ++ rest).drop markSize).take headerSize =
      header.toBytes := by
    rw [List.append_assoc, List.append_assoc, List.drop_left' mark.toBytes_length,
      List.take_left' header.toBytes_length]
  simp only [first, toBytes, hmark, hrest, hhead, RPCMark.ofBytes_toBytes,
    RPCHeader.ofBytes_toBytes, hdata, List.take_left', List.drop_left']
  rw [dif_pos ⟨hheader, by simp only [List.length_append, RPCMark.toBytes_length,
    RPCHeader.toBytes_length]; omega⟩]

theorem eq_of_first {bs rest : Bytes} {f : Frame} (h : first bs = some (f, rest)) :
    bs = f.toBytes ++ rest := by
  simp only [first] at h
  split_ifs at h with hlen
  cases h
  have hmark : (bs.take markSize).length = markSize := by
    rw [List.length_take]
    omega
  have hheader : ((bs.drop markSize).take headerSize).length = headerSize := by
    rw [List.length_take, List.length_drop]
    omega
  simp only [toBytes, RPCMark.toBytes_ofBytes hmark, RPCHeader.toBytes_ofBytes hheader]
  rw [List.append_assoc, List.append_assoc, List.take_append_drop, ← List.drop_drop,
    List.take_append_drop, List.take_append_drop]

theorem first_length_lt {bs rest : Bytes} {f : Frame} (h : first bs = some (f, rest)) :
    rest.length < bs.length := by
  rw [eq_of_first h, List.length_append, toBytes_length]
  simp only [markSize, headerSize]
  omega

/-- The bytes of a sequence of frames. -/
def stream (frames : List Frame) : Bytes := frames.flatMap toBytes

@[simp] theorem stream_nil : stream [] = [] := rfl

@[simp] theorem stream_cons (f : Frame) (frames : List Frame) :
    stream (f :: frames) = f.toBytes ++ stream frames := List.flatMap_cons

@[simp] theorem stream_append (frames frames' : List Frame) :
    stream (frames ++ frames') = stream frames ++ stream frames' := List.flatMap_append

theorem toBytes_ne_nil (f : Frame) : f.toBytes ≠ [] := by
  intro h
  have hlength := f.toBytes_length
  rw [h, List.length_nil] at hlength
  simp only [markSize, headerSize] at hlength
  omega

theorem stream_eq_nil {frames : List Frame} (h : stream frames = []) : frames = [] := by
  cases frames with
  | nil => rfl
  | cons f frames => exact absurd (List.append_eq_nil_iff.mp h).1 f.toBytes_ne_nil

/-- Frames are not ambiguous. -/
theorem append_inj {f g : Frame} {rest rest' : Bytes}
    (h : f.toBytes ++ rest = g.toBytes ++ rest') : f = g ∧ rest = rest' := by
  have hfirst := first_append f rest
  rw [h, first_append g rest'] at hfirst
  cases hfirst
  exact ⟨rfl, rfl⟩

/-- The frames before a part of a frame are those that a stream begins with. -/
theorem stream_prefix_cut {frames frames' : List Frame} {cut : Bytes}
    (h : stream frames <+: stream frames' ++ cut) (hcut : first cut = none) :
    frames <+: frames' := by
  induction frames generalizing frames' with
  | nil => exact List.nil_prefix
  | cons f frames ih =>
    obtain ⟨rest, hrest⟩ := h
    rw [stream_cons, List.append_assoc] at hrest
    cases frames' with
    | nil =>
      rw [stream_nil, List.nil_append] at hrest
      rw [← hrest, first_append] at hcut
      cases hcut
    | cons g frames' =>
      rw [stream_cons, List.append_assoc] at hrest
      obtain ⟨rfl, htail⟩ := append_inj hrest
      exact List.cons_prefix_cons.mpr ⟨rfl, ih ⟨rest, htail⟩⟩

theorem stream_prefix {frames frames' : List Frame} (h : stream frames <+: stream frames') :
    frames <+: frames' :=
  @stream_prefix_cut frames frames' [] (by rwa [List.append_nil]) (first_eq_none_of_lt (by decide))

end Frame

end Frames

end SoftwareDynamics.Network

import SoftwareDynamics.Network.RoundTrip

/-! Which streams the receivers accept.  They look at the length of the header that a mark
announces, but not at its signature. -/

namespace SoftwareDynamics.Network

open ProofKit Prog

section Model

/-- A stream that begins with a mark with the right signature and the right length of the header,
and all that it announces. -/
structure WellFormed (stream : Bytes) : Prop where
  signature : (RPCMark.ofBytes (stream.take markSize)).signature = MARK_SIGNATURE
  headerLen : (RPCMark.ofBytes (stream.take markSize)).headerLen.toNat = headerSize
  complete : markSize + headerSize + (RPCMark.ofBytes (stream.take markSize)).dataLen.toNat ≤
    stream.length

/-- A stream that does not begin with a complete frame that has a wrong signature. -/
def Signed (stream : Bytes) : Prop :=
  let mark := RPCMark.ofBytes (stream.take markSize)
  mark.headerLen.toNat = headerSize → markSize + headerSize + mark.dataLen.toNat ≤ stream.length →
    mark.signature = MARK_SIGNATURE

/-- A receiver returns, however the stream is cut.  It succeeds if and only if the stream is well
formed, and then has consumed one frame of it. -/
def AcceptsExactly (connection : Connection) (receive : Sys (Option Frame)) (stream : Bytes) :
    Prop :=
  ∀ (logFd : Fd) (keystore : Keystore),
    let env := streamEnv connection logFd stream
    (∃ message e, Exec env receive (.fresh keystore) message e) ∧
    ∀ message e, Exec env receive (.fresh keystore) message e →
      (message.isSome ↔ WellFormed stream) ∧
      (message.isSome → e.got.length = markSize + headerSize +
        (RPCMark.ofBytes (stream.take markSize)).dataLen.toNat)

end Model

section Acceptance

variable {connection : Connection} {logFd : Fd} {stream : Bytes}
  {stamp : Frame → UInt64 → Frame} {keystore : Keystore}

theorem Frame.first_isSome (stream : Bytes) : (Frame.first stream).isSome ↔
    (RPCMark.ofBytes (stream.take markSize)).headerLen.toNat = headerSize ∧
      markSize + headerSize + (RPCMark.ofBytes (stream.take markSize)).dataLen.toNat ≤
        stream.length := by
  simp only [Frame.first]
  split_ifs with h
  · exact ⟨fun _ => h, fun _ => rfl⟩
  · exact iff_of_false Bool.false_ne_true h

/-- A receiver takes the first frame of a stream, if there is one. -/
theorem wp_recvStamped_first : wp (streamEnv connection logFd stream) (recvStamped connection stamp)
    (fun message e => (message.isSome ↔ (Frame.first stream).isSome) ∧
      (message.isSome → e.got.length = markSize + headerSize +
        (RPCMark.ofBytes (stream.take markSize)).dataLen.toNat)) (.fresh keystore) := by
  refine wp_mono (wp_recvStamped_reception List.nil_prefix) ?_
  rintro message e ⟨t, ⟨rfl, hgot, hended⟩, hreception⟩
  obtain ⟨rest, hrest⟩ : t.got <+: stream := hgot
  cases hreception with
  | ended hend hnone =>
    have hall : t.got = stream := hended hend
    rw [← hall, hnone]
    exact ⟨Iff.rfl, nofun⟩
  | rejected hnone =>
    rw [← hrest, hnone rest]
    exact ⟨Iff.rfl, nofun⟩
  | @accepted _ f now _ hf =>
    rw [hf] at hrest
    have hmark : stream.take markSize = f.mark.toBytes := by
      rw [← hrest, Frame.toBytes, List.append_assoc, List.append_assoc,
        List.take_left' f.mark.toBytes_length]
    constructor
    · rw [← hrest, Frame.first_append]
      exact ⟨fun _ => rfl, fun _ => rfl⟩
    · intro _
      have hlen : (Endpoint.after (.fresh keystore) t).got.length = f.toBytes.length := by
        rw [← hf]
        rfl
      rw [hlen, Frame.toBytes_length, hmark, RPCMark.ofBytes_toBytes, f.dataLen_eq]

theorem acceptsExactly_iff (connection : Connection) (stamp : Frame → UInt64 → Frame)
    (stream : Bytes) :
    AcceptsExactly connection (recvStamped connection stamp) stream ↔ Signed stream := by
  constructor
  · intro h hheader hcomplete
    obtain ⟨⟨message, e, hexec⟩, hall⟩ := h 0 ∅
    obtain ⟨hiff, -⟩ := hall message e hexec
    obtain ⟨hsome, -⟩ := hexec.of_wp wp_recvStamped_first
    have haccepted := hsome.mpr ((Frame.first_isSome stream).mpr ⟨hheader, hcomplete⟩)
    exact (hiff.mp haccepted).signature
  · intro hsigned logFd keystore
    have hwp := @wp_recvStamped_first connection logFd stream stamp keystore
    constructor
    · obtain ⟨message, e, hexec, -⟩ := hwp.exists_exec (endpointEnv_total _ _ _)
      exact ⟨message, e, hexec⟩
    · intro message e hexec
      obtain ⟨hsome, hlen⟩ := hexec.of_wp hwp
      rw [Frame.first_isSome] at hsome
      refine ⟨hsome.trans ⟨?_, ?_⟩, hlen⟩
      · rintro ⟨hheader, hcomplete⟩
        exact ⟨hsigned hheader hcomplete, hheader, hcomplete⟩
      · intro hformed
        exact ⟨hformed.headerLen, hformed.complete⟩

/-- Both receivers accept exactly the well-formed frames if and only if no complete frame with
another signature is at the start of the stream. -/
theorem receivers_accept_iff (connection : Connection) (stream : Bytes) :
    (AcceptsExactly connection (rpcRecvReq connection) stream ↔ Signed stream) ∧
    (AcceptsExactly connection (rpcRecvResp connection) stream ↔ Signed stream) :=
  ⟨acceptsExactly_iff connection .reqReceived stream,
    acceptsExactly_iff connection .resReceived stream⟩

/-- A stream of one frame, whose signature is zero. -/
def unsignedStream : Bytes :=
  RPCMark.toBytes ⟨0, 72, 0, 0⟩ ++ List.replicate 72 0

/-- A frame with another signature is accepted by both receivers. -/
theorem receivers_accept_unsigned :
    ¬ WellFormed unsignedStream ∧
    (∃ message e, Exec (streamEnv ⟨5, 0, 0, 0, 0⟩ 4 unsignedStream) (rpcRecvReq ⟨5, 0, 0, 0, 0⟩)
      (.fresh ∅) (some message) e) ∧
    (∃ message e, Exec (streamEnv ⟨5, 0, 0, 0, 0⟩ 4 unsignedStream) (rpcRecvResp ⟨5, 0, 0, 0, 0⟩)
      (.fresh ∅) (some message) e) := by
  have hfirst : (Frame.first unsignedStream).isSome := by decide
  have accepts (stamp : Frame → UInt64 → Frame) :
      ∃ message e, Exec (streamEnv ⟨5, 0, 0, 0, 0⟩ 4 unsignedStream)
        (recvStamped ⟨5, 0, 0, 0, 0⟩ stamp) (.fresh ∅) (some message) e := by
    obtain ⟨message, e, hexec, hsome, -⟩ :=
      wp_recvStamped_first.exists_exec (endpointEnv_total _ _ _)
    obtain ⟨message, rfl⟩ := Option.isSome_iff_exists.mp (hsome.mpr hfirst)
    exact ⟨message, e, hexec⟩
  refine ⟨fun h => absurd h.signature (by decide), accepts .reqReceived, accepts .resReceived⟩

end Acceptance

end SoftwareDynamics.Network

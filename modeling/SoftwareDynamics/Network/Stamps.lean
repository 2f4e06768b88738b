import SoftwareDynamics.Network.Correlation

/-! The timestamps T1 to T4 of the messages, over the readings of the clocks of both hosts.  Each
side sends only messages whose stamps are readings that have been made in their order, as long as
this holds of what it gets. -/

namespace SoftwareDynamics.Network

open ProofKit Prog

section Readings

/-- The readings of the clocks of both hosts, in reverse order. -/
abbrev Readings := List (Side × UInt64)

/-- What an operation adds, of which a reading is the result. -/
def readClock (side : Side) (op : SysOp) (r : op.Result) (readings : Readings) : Readings :=
  match op, r with
  | .gettimeofday, some now => (side, now.usec) :: readings
  | _, _ => readings

/-- The stamps of a message that a side sends, in reverse order. -/
def Side.stamps (side : Side) (f : Frame) : Readings :=
  match side with
  | .client => [(.client, f.header.reqSendTimeUs)]
  | .server => [(.server, f.header.resSendTimeUs), (.server, f.header.reqRecvTimeUs),
      (.client, f.header.reqSendTimeUs)]

/-- The bytes are messages of a side, and a part of one, whose stamps have been read in order. -/
def CarriesStamps (side : Side) (readings : Readings) (bytes : Bytes) : Prop :=
  ∃ frames, (∀ f ∈ frames, (side.stamps f).Sublist readings) ∧ bytes <+: Frame.stream frames

/-- The bytes are whole messages of a side, whose stamps have been read in order. -/
def CarriesWhole (side : Side) (readings : Readings) (bytes : Bytes) : Prop :=
  ∃ frames, (∀ f ∈ frames, (side.stamps f).Sublist readings) ∧ bytes = Frame.stream frames

variable {side : Side} {readings readings' : Readings} {bytes : Bytes}

theorem CarriesStamps.nil : CarriesStamps side readings [] := ⟨[], by simp, List.nil_prefix⟩

theorem CarriesWhole.nil : CarriesWhole side readings [] := ⟨[], by simp, rfl⟩

theorem CarriesStamps.mono (h : CarriesStamps side readings bytes) (hle : readings <:+ readings') :
    CarriesStamps side readings' bytes := by
  obtain ⟨frames, hstamps, hbytes⟩ := h
  exact ⟨frames, fun f hf => (hstamps f hf).trans hle.sublist, hbytes⟩

theorem CarriesStamps.of_isPrefix {bytes' : Bytes} (h : CarriesStamps side readings bytes')
    (hle : bytes <+: bytes') : CarriesStamps side readings bytes := by
  obtain ⟨frames, hstamps, hbytes⟩ := h
  exact ⟨frames, hstamps, hle.trans hbytes⟩

theorem CarriesWhole.mono (h : CarriesWhole side readings bytes)
    (hle : readings <:+ readings') : CarriesWhole side readings' bytes := by
  obtain ⟨frames, hstamps, hbytes⟩ := h
  exact ⟨frames, fun f hf => (hstamps f hf).trans hle.sublist, hbytes⟩

theorem CarriesWhole.carries (h : CarriesWhole side readings bytes) :
    CarriesStamps side readings bytes := by
  obtain ⟨frames, hstamps, rfl⟩ := h
  exact ⟨frames, hstamps, List.prefix_refl _⟩

/-- One more message, of which only a part may have been sent. -/
theorem CarriesWhole.append (h : CarriesWhole side readings bytes) {f : Frame}
    (hf : (side.stamps f).Sublist readings) :
    CarriesWhole side readings (bytes ++ f.toBytes) := by
  obtain ⟨frames, hstamps, rfl⟩ := h
  refine ⟨frames ++ [f], fun g hg => ?_, by simp⟩
  rcases List.mem_append.mp hg with hg | hg
  · exact hstamps g hg
  · rwa [List.mem_singleton.mp hg]

/-- The stamps of a message that has been got as a whole have been read in order. -/
theorem CarriesStamps.stamps_of_got {frames : List Frame} {f : Frame}
    (h : CarriesStamps side readings (Frame.stream frames ++ f.toBytes)) :
    (side.stamps f).Sublist readings := by
  obtain ⟨frames', hstamps, hbytes⟩ := h
  have hframes : frames ++ [f] <+: frames' := Frame.stream_prefix (by simpa using hbytes)
  exact hstamps f (hframes.subset (by simp))

end Readings

section Views

/-- One side as its program sees it, while the clock of the other side may be read at any time.  It
is allowed to go on as long as what it has sent carries its stamps, and relies on what it gets. -/
def stampEnv (side : Side) : Env SysOp SysOp.Result (Host × Readings) where
  allows v _ := ∀ n, CarriesStamps side v.2 (v.1.sent n)
  act v op r v' := ∃ readings, v.2 <:+ readings ∧ v.1.act op r v'.1 ∧
    (∀ n, CarriesStamps side.other readings (v'.1.got n)) ∧ v'.2 = readClock side op r readings

/-- What the program of the other side may change. -/
def ReadsOn (v v' : Host × Readings) : Prop := v'.1 = v.1 ∧ v.2 <:+ v'.2

theorem stampEnv_stable (side : Side) : (stampEnv side).Stable ReadsOn where
  allows v v' op hR hallows n := by
    obtain ⟨h, readings'⟩ := v'
    obtain ⟨rfl, hle⟩ := hR
    exact (hallows n).mono hle
  act v v' op r t hR hact := by
    obtain ⟨h, readings'⟩ := v'
    obtain ⟨rfl, hle⟩ := hR
    obtain ⟨readings, hle', hrest⟩ := hact
    exact ⟨readings, hle.trans hle', hrest⟩

variable {side : Side} {h h' : Host} {readings readings' : Readings} {n : Nat} {sockFd logFd : Fd}

/-- A side of which every connection carries its stamps. -/
structure Stamped (side : Side) (v : Host × Readings) : Prop where
  unused : v.1.Unused
  carries : ∀ n, CarriesStamps side v.2 (v.1.sent n)

/-- A side that has a connection, on which it has sent whole messages. -/
structure Linked (side : Side) (sockFd logFd : Fd) (n : Nat) (v : Host × Readings) : Prop extends
    Stamped side v where
  log : v.1.files logFd = some .log
  sock : v.1.files sockFd = some (.connection n)
  opened : n < v.1.conns
  sent : CarriesWhole side v.2 (v.1.sent n)

/-- A side has got whole messages on a connection. -/
def GotWhole (n : Nat) (v : Host × Readings) : Prop := ∃ frames, v.1.got n = Frame.stream frames

theorem Stamped.mono (hs : Stamped side (h, readings)) (hle : readings <:+ readings') :
    Stamped side (h, readings') := ⟨hs.unused, fun n => (hs.carries n).mono hle⟩

/-- What has been got and sent does not depend on the descriptors. -/
theorem Stamped.of_eq (hs : Stamped side (h, readings)) (hgot : h'.got = h.got)
    (hsent : h'.sent = h.sent) (hconns : h.conns ≤ h'.conns) : Stamped side (h', readings) where
  unused n hn := by
    dsimp only at hn ⊢
    rw [hgot, hsent]
    exact hs.unused n (Nat.le_trans hconns hn)
  carries n := by
    dsimp only
    rw [hsent]
    exact hs.carries n

theorem Linked.mono (hl : Linked side sockFd logFd n (h, readings)) (hle : readings <:+ readings') :
    Linked side sockFd logFd n (h, readings') where
  toStamped := hl.toStamped.mono hle
  log := hl.log
  sock := hl.sock
  opened := hl.opened
  sent := hl.sent.mono hle

theorem Linked.look (hl : Linked side sockFd logFd n (h, readings)) (now : UInt64) :
    Linked side sockFd logFd n (h.look now, readings) where
  toStamped := hl.toStamped.of_eq rfl rfl (Nat.le_refl _)
  log := hl.log
  sock := hl.sock
  opened := hl.opened
  sent := hl.sent

theorem Linked.receive (hl : Linked side sockFd logFd n (h, readings)) (chunk : Bytes) :
    Linked side sockFd logFd n (h.receive n chunk, readings) where
  unused m hm := by
    have hne : m ≠ n := Nat.ne_of_gt (Nat.lt_of_lt_of_le hl.opened hm)
    simpa [Host.receive, hne] using hl.unused m hm
  carries := hl.carries
  log := hl.log
  sock := hl.sock
  opened := hl.opened
  sent := hl.sent

theorem Linked.log_ne (hl : Linked side sockFd logFd n (h, readings)) : logFd ≠ sockFd :=
  Host.fd_ne hl.log hl.sock nofun

/-- A side that is sending a message. -/
theorem Linked.sending (hl : Linked side sockFd logFd n (h, readings)) {f : Frame} {buf : Bytes}
    (hf : (side.stamps f).Sublist readings) (hbuf : buf <+: f.toBytes) :
    Stamped side (h.send n buf, readings) where
  unused m hm := by
    have hne : m ≠ n := Nat.ne_of_gt (Nat.lt_of_lt_of_le hl.opened hm)
    simpa [Host.send, hne] using hl.unused m hm
  carries m := by
    by_cases hm : m = n
    · subst hm
      have hsent : h.sent m ++ buf <+: h.sent m ++ f.toBytes :=
        (List.prefix_append_right_inj _).mpr hbuf
      simpa [Host.send] using (hl.sent.append hf).carries.of_isPrefix hsent
    · simpa [Host.send, hm] using hl.carries m

/-- A side that has sent a message. -/
theorem Linked.send (hl : Linked side sockFd logFd n (h, readings)) {f : Frame}
    (hf : (side.stamps f).Sublist readings) :
    Linked side sockFd logFd n (h.send n f.toBytes, readings) where
  toStamped := hl.sending hf (List.prefix_refl _)
  log := hl.log
  sock := hl.sock
  opened := hl.opened
  sent := by simpa [Host.send] using hl.sent.append hf

end Views

section Rules

variable {side : Side} {h : Host} {readings : Readings} {n : Nat} {connection : Connection}
  {logFd : Fd}

theorem wp_stamped {op : SysOp} {Q : op.Result → Host × Readings → Prop}
    (hs : Stamped side (h, readings))
    (hQ : ∀ r h' readings', readings <:+ readings' → h.act op r h' →
      (∀ n, CarriesStamps side.other readings' (h'.got n)) →
        Q r (h', readClock side op r readings')) :
    wp (stampEnv side) (sys op) Q (h, readings) := by
  refine ⟨hs.carries, fun r v' hact => ?_⟩
  obtain ⟨h', readings''⟩ := v'
  obtain ⟨readings', hle, hact, hgot, rfl⟩ := hact
  exact hQ r h' readings' hle hact hgot

theorem wp_stamped_nowUsec {Q : Option UInt64 → Host × Readings → Prop}
    (hs : Stamped side (h, readings))
    (hQ : ∀ now readings', readings <:+ readings' →
      (∀ n, CarriesStamps side.other readings' (h.got n)) →
      Q (some now) (h.look now, (side, now) :: readings')) :
    wp (stampEnv side) nowUsec Q (h, readings) := by
  rw [nowUsec, wp_bind]
  refine wp_stamped hs fun r h' readings' hle hact hgot => ?_
  rcases r with _ | now
  · exact hact.elim
  obtain rfl : h' = h.look now.usec := hact
  exact hQ now.usec readings' hle hgot

theorem wp_stamped_indeterminate {size : Nat} {Q : Octets size → Host × Readings → Prop}
    (hs : Stamped side (h, readings))
    (hQ : ∀ bs readings', readings <:+ readings' → Q bs (h, readings')) :
    wp (stampEnv side) (sys (.indeterminate size)) Q (h, readings) := by
  refine wp_stamped hs fun bs h' readings' hle hact _ => ?_
  obtain rfl : h' = h := hact
  exact hQ bs readings' hle

theorem wp_stamped_ilog2 {x : UInt32} {Q : UInt8 → Host × Readings → Prop}
    (hs : Stamped side (h, readings))
    (hQ : ∀ y readings', readings <:+ readings' → Q y (h, readings')) :
    wp (stampEnv side) (ilog2 x) Q (h, readings) := by
  unfold ilog2
  split_ifs
  · rw [wp_map]
    exact wp_stamped_indeterminate hs fun bs => hQ _
  · exact hQ _ readings List.suffix_rfl

theorem wp_stamped_writeLog {buf : Bytes}
    {Q : Option (Fin (buf.length + 1)) → Host × Readings → Prop} (hs : Stamped side (h, readings))
    (hlog : h.files logFd = some .log)
    (hQ : ∀ readings', readings <:+ readings' → Q (some (Fin.last _)) (h, readings')) :
    wp (stampEnv side) (sys (.write logFd buf)) Q (h, readings) := by
  refine wp_stamped hs fun r h' readings' hle hact _ => ?_
  obtain ⟨rfl, ⟨-, rfl⟩ | ⟨m, hm, -⟩⟩ := hact
  · exact hQ readings' hle
  · rw [hlog] at hm
    cases hm

theorem wp_stamped_log {message : RPCMessage} {Q : Option Unit → Host × Readings → Prop}
    (hs : Stamped side (h, readings)) (hlog : h.files logFd = some .log)
    (hQ : ∀ readings', readings <:+ readings' → Q (some ()) (h, readings')) :
    wp (stampEnv side) (log logFd message) Q (h, readings) := by
  rw [log, wp_bind]
  refine wp_stamped_writeLog hs hlog fun readings₁ hle₁ => ?_
  rw [Option.isNone_some, if_neg Bool.false_ne_true, wp_bind]
  refine wp_stamped_writeLog (hs.mono hle₁) hlog fun readings₂ hle₂ => ?_
  exact hQ readings₂ (hle₁.trans hle₂)

/-- A message is sent whose stamps have been read. -/
theorem wp_stamped_sendMessage {f : Frame} {body : Option Bytes}
    {Q : Option Unit → Host × Readings → Prop}
    (hl : Linked side connection.sockFd logFd n (h, readings))
    (hf : (side.stamps f).Sublist readings)
    (hQ : ∀ readings', readings <:+ readings' → Q (some ()) (h.send n f.toBytes, readings')) :
    wp (stampEnv side) (sendMessage connection ⟨f.mark, f.header, body⟩ f.data logFd) Q
      (h, readings) := by
  have write {h : Host} {readings : Readings} {buf : Bytes}
      {Q : Option (Fin (buf.length + 1)) → Host × Readings → Prop}
      (hs : Stamped side (h, readings)) (hsock : h.files connection.sockFd = some (.connection n))
      (hQ : ∀ readings', readings <:+ readings' →
        Q (some (Fin.last _)) (h.send n buf, readings')) :
      wp (stampEnv side) (sys (.write connection.sockFd buf)) Q (h, readings) := by
    refine wp_stamped hs fun r h' readings' hle hact _ => ?_
    obtain ⟨rfl, ⟨hlog, -⟩ | ⟨m, hm, rfl⟩⟩ := hact
    · rw [hsock] at hlog
      cases hlog
    · rw [hsock] at hm
      cases hm
      exact hQ readings' hle
  have hsend : (h.send n (f.mark.toBytes ++ f.header.toBytes)).send n f.data =
      h.send n f.toBytes := by
    simp [Host.send, Frame.toBytes]
  rw [sendMessage, wp_bind]
  refine write hl.toStamped hl.sock fun readings₁ hle₁ => ?_
  have hl₁ := hl.mono hle₁
  have hf₁ := hf.trans hle₁.sublist
  have hhead : Stamped side (h.send n (f.mark.toBytes ++ f.header.toBytes), readings₁) :=
    hl₁.sending hf₁ (List.prefix_append _ _)
  simp only [wroteAll_last, Bool.not_true, Bool.false_eq_true, if_false, wp_bind]
  refine write hhead hl.sock fun readings₂ hle₂ => ?_
  rw [hsend]
  simp only [wroteAll_last, Bool.not_true, Bool.false_eq_true, if_false]
  split_ifs
  · rw [wp_bind]
    have hl₂ := (hl₁.mono hle₂).send (hf₁.trans hle₂.sublist)
    exact wp_stamped_log hl₂.toStamped hl.log fun readings₃ hle₃ =>
      hQ readings₃ ((hle₁.trans hle₂).trans hle₃)
  · exact hQ readings₂ (hle₁.trans hle₂)

/-- A receiver gets a whole message, or fails. -/
theorem wp_stamped_recvMessage {frames : List Frame} {Q : Option Frame → Host × Readings → Prop}
    (hl : Linked side connection.sockFd logFd n (h, readings))
    (hgot : h.got n = Frame.stream frames)
    (fail : ∀ h' readings', Linked side connection.sockFd logFd n (h', readings') →
      Q none (h', readings'))
    (done : ∀ f h' readings', Linked side connection.sockFd logFd n (h', readings') →
      h'.got n = Frame.stream frames ++ f.toBytes → Q (some f) (h', readings')) :
    wp (stampEnv side) (recvMessage connection) Q (h, readings) := by
  refine Receives.wp_recvMessage (I := fun got v =>
    Linked side connection.sockFd logFd n v ∧ v.1.got n = Frame.stream frames ++ got)
    ⟨fun got k v _ _ hI => ?_, fun got size v hI => ?_, fun got v _ hI => fail v.1 v.2 hI.1,
      fun f v hI => done f v.1 v.2 hI.1 hI.2⟩ ⟨hl, by simpa using hgot⟩
  · obtain ⟨h, readings⟩ := v
    obtain ⟨hl, hgot⟩ := hI
    refine wp_stamped hl.toStamped (Q := fun r v' => _ ∧ _) fun r h' readings' hle hact _ => ?_
    rcases r with _ | chunk
    · exact hact.elim
    obtain ⟨m, hm, rfl⟩ := hact
    rw [hl.sock] at hm
    cases hm
    have hl' := (hl.mono hle).receive chunk.1
    refine ⟨fun _ => fail _ _ hl', fun _ => ⟨hl', ?_⟩⟩
    rw [← List.append_assoc, ← hgot]
    simp [Host.receive, delivered]
  · obtain ⟨h, readings⟩ := v
    obtain ⟨hl, hgot⟩ := hI
    refine wp_stamped hl.toStamped (Q := fun r v' => _ ∧ _) fun r h' readings' hle hact _ => ?_
    obtain ⟨rfl, rfl⟩ := hact
    exact ⟨⟨hl.mono hle, hgot⟩, by simp⟩

/-- The time at which a message is received is read after its stamps have been. -/
theorem wp_stamped_recvStamped {stamp : Frame → UInt64 → Frame}
    {Q : Option Frame → Host × Readings → Prop}
    (hl : Linked side connection.sockFd logFd n (h, readings)) (hgot : GotWhole n (h, readings))
    (fail : ∀ h' readings', Linked side connection.sockFd logFd n (h', readings') →
      Q none (h', readings'))
    (done : ∀ f now h' readings', Linked side connection.sockFd logFd n (h', readings') →
      GotWhole n (h', readings') →
      ((side, now) :: side.other.stamps f).Sublist readings' →
      Q (some (stamp f now)) (h', readings')) :
    wp (stampEnv side) (recvStamped connection stamp) Q (h, readings) := by
  obtain ⟨frames, hgot⟩ := hgot
  rw [recvStamped, wp_bind]
  refine wp_stamped_recvMessage hl hgot fail fun f h₁ readings₁ hl₁ hgot₁ => ?_
  dsimp only
  rw [wp_bind]
  refine wp_stamped_nowUsec hl₁.toStamped fun now readings₂ hle₂ hcarries => ?_
  have hstamps := hcarries n
  rw [hgot₁] at hstamps
  refine done f now _ _ ((hl₁.look now).mono (hle₂.trans (List.suffix_cons _ _))) ?_
    (hstamps.stamps_of_got.cons_cons _)
  exact ⟨frames ++ [f], hgot₁.trans (by simp)⟩

end Rules

section Messages

variable {h : Host} {readings : Readings} {n : Nat} {connection : Connection} {logFd : Fd}

/-- A request is sent with the time that has just been read. -/
theorem wp_stamped_rpcSendReq {body : Bytes} (hbody : body.length < 2 ^ 32)
    {parentRpc rpcId : UInt32} {method : CString}
    {Q : Option Unit × UInt32 → Host × Readings → Prop}
    (hl : Linked .client connection.sockFd logFd n (h, readings))
    (hgot : GotWhole n (h, readings))
    (hQ : ∀ r h' readings', Linked .client connection.sockFd logFd n (h', readings') →
      GotWhole n (h', readings') → Q (r, rpcId + 1) (h', readings')) :
    wp (stampEnv .client) (rpcSendReq connection body parentRpc method logFd rpcId) Q
      (h, readings) := by
  have hlen : (UInt32.ofNat body.length).toNat = body.length := UInt32.toNat_ofNat_of_lt' hbody
  rw [rpcSendReq, wp_bind]
  refine wp_stamped_indeterminate hl.toStamped fun checksum readings₁ hle₁ => ?_
  rw [wp_bind]
  refine wp_stamped_indeterminate (hl.mono hle₁).toStamped fun resLenLog readings₂ hle₂ => ?_
  rw [wp_bind]
  refine wp_stamped_indeterminate (hl.mono (hle₁.trans hle₂)).toStamped fun pad readings₃ hle₃ => ?_
  have hl₃ := hl.mono ((hle₁.trans hle₂).trans hle₃)
  rw [wp_bind]
  refine wp_stamped_nowUsec hl₃.toStamped fun now readings₄ hle₄ _ => ?_
  have hl₄ := (hl₃.look now).mono (hle₄.trans (List.suffix_cons (.client, now) _))
  dsimp only
  rw [wp_bind]
  refine wp_stamped_ilog2 hl₄.toStamped fun reqLenLog readings₅ hle₅ => ?_
  have hl₅ := hl₄.mono hle₅
  have hread : (Side.client, now) ∈ readings₅ := hle₅.subset List.mem_cons_self
  rw [wp_bind]
  refine wp_stamped_sendMessage (f := {
    mark := ⟨MARK_SIGNATURE, .ofNat headerSize, .ofNat body.length, ofLe32 checksum.1⟩
    header := _
    data := body
    headerLen_eq := rfl
    dataLen_eq := hlen }) hl₅ (List.singleton_sublist.mpr hread) fun readings₆ hle₆ => ?_
  exact hQ _ _ _ ((hl₅.send (List.singleton_sublist.mpr hread)).mono hle₆) hgot

/-- The times of a request that has been received have been read in order. -/
def Received (message : Frame) (readings : Readings) : Prop :=
  [(Side.server, message.header.reqRecvTimeUs),
    (Side.client, message.header.reqSendTimeUs)].Sublist readings

/-- A response is sent with the time that has just been read, behind those of its request. -/
theorem wp_stamped_respond {message : Frame} {body : Bytes} (hbody : body.length < 2 ^ 32)
    {status : RpcStatus} {Q : Unit → Host × Readings → Prop}
    (hl : Linked .server connection.sockFd logFd n (h, readings)) (hgot : GotWhole n (h, readings))
    (hreceived : Received message readings)
    (hQ : ∀ h' readings', Linked .server connection.sockFd logFd n (h', readings') →
      GotWhole n (h', readings') → Q () (h', readings')) :
    wp (stampEnv .server) (respond connection message body status logFd) Q (h, readings) := by
  rw [respond, wp_bind, rpcSendResp, wp_bind]
  refine wp_stamped_nowUsec hl.toStamped fun now readings₁ hle₁ _ => ?_
  have hl₁ := (hl.look now).mono (hle₁.trans (List.suffix_cons (.server, now) _))
  have hstamps := (hreceived.trans hle₁.sublist).cons_cons (Side.server, now)
  dsimp only
  rw [wp_bind]
  refine wp_stamped_ilog2 hl₁.toStamped fun resLenLog readings₂ hle₂ => ?_
  have hf : (Side.server.stamps (message.response body hbody status now resLenLog)).Sublist
      readings₂ := hstamps.trans hle₂.sublist
  refine wp_stamped_sendMessage (f := message.response body hbody status now resLenLog)
    (hl₁.mono hle₂) hf fun readings₃ hle₃ => ?_
  exact hQ _ _ (((hl₁.mono hle₂).send hf).mono hle₃) hgot

theorem keeps_stamped (message : Frame) :
    Keeps (stampEnv .server) .shared () fun _ v =>
      Linked .server connection.sockFd logFd n v ∧ GotWhole n v ∧ Received message v.2 where
  indeterminate size v hv := by
    obtain ⟨hl, hgot, hreceived⟩ := hv
    refine wp_stamped hl.toStamped (Q := fun _ _ => _) fun r h' readings' hle hact _ => ?_
    obtain rfl : h' = v.1 := hact
    exact ⟨hl.mono hle, hgot, hreceived.trans hle.sublist⟩
  emplace key value v hv := by
    obtain ⟨hl, hgot, hreceived⟩ := hv
    refine wp_stamped hl.toStamped (Q := fun _ _ => _) fun r h' readings' hle hact _ => ?_
    obtain rfl : h' = v.1 := hact
    exact ⟨(), trivial, hl.mono hle, hgot, hreceived.trans hle.sublist⟩
  find key v hv := by
    obtain ⟨hl, hgot, hreceived⟩ := hv
    refine wp_stamped hl.toStamped (Q := fun _ _ => _) fun r h' readings' hle hact _ => ?_
    obtain rfl : h' = v.1 := hact
    exact ⟨(), trivial, hl.mono hle, hgot, hreceived.trans hle.sublist⟩

/-- A round of serving a connection. -/
theorem wp_stamped_serveMessage {Q : Option RpcAction → Host × Readings → Prop}
    (hl : Linked .server connection.sockFd logFd n (h, readings)) (hgot : GotWhole n (h, readings))
    (hQ : ∀ action h' readings', Linked .server connection.sockFd logFd n (h', readings') →
      (action = none → GotWhole n (h', readings')) → Q action (h', readings')) :
    wp (stampEnv .server) (serveMessage connection logFd) Q (h, readings) := by
  rw [serveMessage, wp_bind]
  refine wp_stamped_recvStamped hl hgot (fun h' readings' hl' => hQ _ _ _ hl' (by simp))
    fun request now h₁ readings₁ hl₁ hgot₁ hreceived => ?_
  dsimp only
  rw [wp_bind]
  refine wp_stamped_log hl₁.toStamped hl₁.log fun readings₂ hle₂ => ?_
  refine (keeps_stamped (request.reqReceived now)).wp_processCommand
    ⟨hl₁.mono hle₂, hgot₁, hreceived.trans hle₂.sublist⟩ (fun status body k' v hhandles hv => ?_)
    fun _ => hQ _ _ _ (hl₁.mono hle₂) (by simp)
  exact wp_stamped_respond hhandles.length_lt hv.1 hv.2.1 hv.2.2 fun h' readings' hl' hgot' =>
    hQ _ _ _ hl' fun _ => hgot'

end Messages

end SoftwareDynamics.Network

import SoftwareDynamics.Network.Framing

/-! What a message that has been sent says of its own length.  The mark has 32 bits for the length
of the body, and the logarithm is taken of the low 32 bits of the length of the whole message. -/

namespace SoftwareDynamics.Network

open ProofKit Prog

section Model

/-- What has been put on a connection starts with a frame of the given body, whose mark tells the
length of the body, and whose header has the logarithm of the length of all of it. -/
def TellsLengths (lenLog : RPCHeader → UInt8) (body output : Bytes) : Prop :=
  ∃ (mark : RPCMark) (header : RPCHeader), mark.toBytes ++ header.toBytes ++ body <+: output ∧
    mark.dataLen.toNat = body.length ∧
    2 ^ (lenLog header).toNat ≤ body.length + markAndHeader ∧
    body.length + markAndHeader < 2 ^ ((lenLog header).toNat + 1)

/-- Whatever the `write`s come to, a request that has been sent tells its lengths. -/
def RequestTellsLengths (body : Bytes) : Prop :=
  ∀ (connection : Connection) (parentRpc : UInt32) (method : CString) (logFd : Fd)
    (nextRpcId next : UInt32) (s : Link),
    Exec (linkEnv connection.sockFd)
      (rpcSendReq connection body parentRpc method logFd nextRpcId) ⟨[], .header⟩
      (some (), next) s → TellsLengths RPCHeader.reqLenLog body s.output

/-- Whatever the `write`s come to, a response that has been sent tells its lengths. -/
def ResponseTellsLengths (body : Bytes) : Prop :=
  ∀ (connection : Connection) (request : RPCMessage) (status : RpcStatus) (logFd : Fd) (s : Link),
    Exec (linkEnv connection.sockFd)
      (rpcSendResp connection request body status logFd) ⟨[], .header⟩ (some ()) s →
    TellsLengths RPCHeader.resLenLog body s.output

end Model

section Short

variable {connection : Connection} {logFd : Fd} {s : Link} {body : Bytes}

/-- Nothing takes back what has been put on a connection. -/
theorem linkEnv_output {sock : Fd} {op : SysOp} {r : op.Result} {s' : Link}
    (h : (linkEnv sock).act s op r s') : s.output <+: s'.output := by
  by_cases hop : ∃ buf, op = .write sock buf
  · obtain ⟨buf, rfl⟩ := hop
    obtain rfl : s' = s.write buf (sentBy r) := by simpa [linkEnv] using h
    exact List.prefix_append _ _
  · obtain rfl := linkEnv_keeps (fun buf heq => hop ⟨buf, heq⟩) h
    exact List.prefix_refl _

/-- What does not write to the connection leaves it as it is. -/
theorem wp_only_wire {α : Type} {p : Sys α} {Q : α → Link → Prop}
    (hp : p.Only fun op => ∀ buf, op ≠ .write connection.sockFd buf) (h : ∀ a, Q a s) :
    wp (linkEnv connection.sockFd) p Q s := by
  refine wp_mono (hp.wp (J := (· = s)) (fun _ op hop hs => ⟨trivial, fun r s' hr => ?_⟩) rfl)
    fun a s' hs' => hs' ▸ h a
  exact (linkEnv_keeps hop hr).trans hs

theorem wp_write_wire {buf : Bytes} {Q : Option (Fin (buf.length + 1)) → Link → Prop}
    (h : ∀ r, Q r (s.write buf (sentBy r))) :
    wp (linkEnv connection.sockFd) (sys (.write connection.sockFd buf)) Q s := by
  refine ⟨trivial, fun r s' hr => ?_⟩
  obtain rfl : s' = s.write buf (sentBy r) := by simpa [linkEnv] using hr
  exact h r

/-- A message that has been sent is on the connection as a whole, and alone unless the log is
written there too. -/
theorem wp_sendMessage_wire (message : RPCMessage) :
    wp (linkEnv connection.sockFd) (sendMessage connection message body logFd)
      (fun r s' => r = some () →
        s.output ++ (message.mark.toBytes ++ message.header.toBytes ++ body) <+: s'.output ∧
        (logFd ≠ connection.sockFd →
          s'.output = s.output ++ (message.mark.toBytes ++ message.header.toBytes ++ body))) s := by
  rw [sendMessage, wp_bind]
  refine wp_write_wire fun r => ?_
  by_cases hall : wroteAll r
  · have hsent := sentBy_of_wroteAll hall
    simp only [hall, Bool.not_true, Bool.false_eq_true, if_false, wp_bind]
    refine wp_write_wire fun r' => ?_
    by_cases hall' : wroteAll r'
    · have hsent' := sentBy_of_wroteAll hall'
      have houtput : ((s.write (message.mark.toBytes ++ message.header.toBytes)
          (sentBy r)).write body (sentBy r')).output =
          s.output ++ (message.mark.toBytes ++ message.header.toBytes ++ body) := by
        simp only [Link.write, hsent, hsent', List.take_length, List.append_assoc]
      simp only [hall', Bool.not_true, Bool.false_eq_true, if_false]
      rw [← houtput]
      generalize (s.write (message.mark.toBytes ++ message.header.toBytes)
        (sentBy r)).write body (sentBy r') = s₂
      split
      · rw [wp_bind]
        by_cases hlog : logFd = connection.sockFd
        · refine wp_mono ((only_true (log logFd message)).wp
            (J := fun s' => s₂.output <+: s'.output)
            (fun _ _ _ hs => ⟨trivial, fun _ _ hr => hs.trans (linkEnv_output hr)⟩)
            (List.prefix_refl _)) fun _ s' hs' _ => ⟨hs', fun hne => absurd hlog hne⟩
        · exact wp_only_wire (log_only (fun _ _ heq => hlog (SysOp.write.inj heq).1) message)
            fun _ _ => ⟨List.prefix_refl _, fun _ => rfl⟩
      · exact fun _ => ⟨List.prefix_refl _, fun _ => rfl⟩
    · simp only [hall', Bool.not_false, if_true]
      intro h
      cases h
  · simp only [hall, Bool.not_false, if_true]
    intro h
    cases h

/-- Where the length of the whole message fits in 32 bits, nothing of it is lost. -/
theorem TellsLengths.of_lt {lenLog : RPCHeader → UInt8} {output : Bytes} {mark : RPCMark}
    {header : RPCHeader} (hn : body.length + markAndHeader < 2 ^ 32)
    (hpre : mark.toBytes ++ header.toBytes ++ body <+: output)
    (hmark : mark.dataLen = .ofNat body.length)
    (hlog : lenLog header = .ofNat (UInt32.ofNat (body.length + markAndHeader)).toNat.log2) :
    TellsLengths lenLog body output := by
  have hne : body.length + markAndHeader ≠ 0 := by simp [markAndHeader, markSize]
  have hlt : (body.length + markAndHeader).log2 < 32 := (Nat.log2_lt hne).mpr hn
  have hlen : (lenLog header).toNat = (body.length + markAndHeader).log2 := by
    rw [hlog, UInt32.toNat_ofNat_of_lt' hn]
    exact UInt8.toNat_ofNat_of_lt' (Nat.lt_trans hlt (by decide))
  refine ⟨mark, header, hpre, ?_, ?_, ?_⟩
  · rw [hmark, UInt32.toNat_ofNat_of_lt' (Nat.lt_of_le_of_lt (Nat.le_add_right _ _) hn)]
  · rw [hlen]
    exact Nat.log2_self_le hne
  · rw [hlen]
    exact Nat.lt_log2_self

/-- The logarithm of the length of a message that is no longer than 32 bits can tell. -/
theorem ilog2_length {n : Nat} (hn : n + markAndHeader < 2 ^ 32) :
    ilog2 (.ofNat (n + markAndHeader)) =
      pure (.ofNat (UInt32.ofNat (n + markAndHeader)).toNat.log2) := by
  rw [ilog2, if_neg]
  intro hzero
  have h := congrArg UInt32.toNat hzero
  rw [UInt32.toNat_ofNat_of_lt' hn] at h
  simp [markAndHeader, markSize] at h

theorem requestTellsLengths (hn : body.length + markAndHeader < 2 ^ 32) :
    RequestTellsLengths body := by
  intro connection parentRpc method logFd nextRpcId next s hexec
  have hwp : wp (linkEnv connection.sockFd)
      (rpcSendReq connection body parentRpc method logFd nextRpcId)
      (fun r s => r.1 = some () → TellsLengths RPCHeader.reqLenLog body s.output)
      ⟨[], .header⟩ := by
    refine wp_rpcSendReq_looks (fun n R hR => wp_only_wire (only_perform fun _ => nofun) hR)
      fun checksum resLenLog pad => ?_
    refine wp_only_wire (nowUsec_only fun _ => nofun) fun now => ?_
    cases now with
    | none => exact nofun
    | some now =>
      dsimp only
      rw [Body.length_bytes, ilog2_length hn, wp_pure]
      refine wp_mono (wp_sendMessage_wire _) fun r s' hs' hr => ?_
      exact .of_lt hn (hs' hr).1 rfl rfl
  exact hexec.of_wp hwp rfl

theorem responseTellsLengths (hn : body.length + markAndHeader < 2 ^ 32) :
    ResponseTellsLengths body := by
  intro connection request status logFd s hexec
  have hwp : wp (linkEnv connection.sockFd)
      (rpcSendResp connection request body status logFd)
      (fun r s => r = some () → TellsLengths RPCHeader.resLenLog body s.output)
      ⟨[], .header⟩ := by
    rw [rpcSendResp, wp_bind]
    refine wp_only_wire (nowUsec_only (by simp)) fun now => ?_
    cases now with
    | none =>
      intro h
      cases h
    | some now =>
      dsimp only
      rw [ilog2_length hn, pure_bind]
      refine wp_mono (wp_sendMessage_wire _) fun r s' hs' hr => ?_
      exact .of_lt hn (hs' hr).1 rfl rfl
  exact hexec.of_wp hwp rfl

end Short

section Long

variable {connection : Connection} {logFd : Fd} {body : Bytes}

/-- A mark and a header tell only of lengths below the next power of two, which is `2^32` at most
for the logarithm of a 32-bit number. -/
theorem TellsLengths.lt {lenLog : RPCHeader → UInt8} {output : Bytes} {mark : RPCMark}
    {header : RPCHeader} (h : TellsLengths lenLog body output)
    (hpre : mark.toBytes ++ header.toBytes <+: output) (hlog : (lenLog header).toNat < 32) :
    body.length + markAndHeader < 2 ^ 32 := by
  obtain ⟨mark', header', hpre', -, -, hlt⟩ := h
  have heq : mark'.toBytes ++ header'.toBytes = mark.toBytes ++ header.toBytes :=
    (List.prefix_of_prefix_length_le ((List.prefix_append _ _).trans hpre') hpre
      (by simp)).eq_of_length (by simp)
  obtain ⟨rfl, rfl⟩ := markAndHeader_inj heq
  exact Nat.lt_of_lt_of_le hlt (Nat.pow_le_pow_right (by decide) hlog)

theorem Open.exec_ilog2_lt {σ : Type} {env : Env SysOp SysOp.Result σ} {s : σ} (h : Open env s)
    (x : UInt32) : ∃ y : UInt8, y.toNat < 32 ∧ Exec env (ilog2 x) s y s := by
  by_cases hx : x = 0
  · refine ⟨0, by decide, ?_⟩
    rw [ilog2, if_pos hx]
    exact .call (h.indeterminate 1 ⟨[0], rfl⟩) (.ret _ s)
  · have hlt : x.toNat.log2 < 32 :=
      (Nat.log2_lt fun hzero => hx (UInt32.toNat_inj.mp hzero)).mpr x.toNat_lt
    refine ⟨.ofNat x.toNat.log2, ?_, ?_⟩
    · rwa [UInt8.toNat_ofNat_of_lt' (Nat.lt_trans hlt (by decide))]
    · rw [ilog2, if_neg hx]
      exact .ret _ s

/-- Both `write`s of a message may be complete. -/
theorem exists_sent (hlog : logFd ≠ connection.sockFd) (message : RPCMessage) (body : Bytes) :
    ∃ s, Exec (linkEnv connection.sockFd)
        (sendMessage connection message body logFd) ⟨[], .header⟩ (some ()) s ∧
      message.mark.toBytes ++ message.header.toBytes <+: s.output := by
  refine ⟨_, exec_sendMessage_whole hlog message body, ?_⟩
  simp only [Link.write, List.take_length, List.nil_append]
  exact List.prefix_append _ _

theorem RequestTellsLengths.lt (h : RequestTellsLengths body) :
    body.length + markAndHeader < 2 ^ 32 := by
  have hopen := linkEnv_open 5 ⟨[], .header⟩
  obtain ⟨y, hy, hilog⟩ := hopen.exec_ilog2_lt (.ofNat (body.length + markAndHeader))
  obtain ⟨s, hsend, hpre⟩ := @exists_sent ⟨5, 0, 0, 0, 0⟩ 4 (by decide)
    (requestMessage ⟨5, 0, 0, 0, 0⟩ body 0 ⟨[], by simp⟩ 1 (.fit 4 []) (.fit 1 []) (.fit 4 []) 0 y)
    body
  exact (h ⟨5, 0, 0, 0, 0⟩ 0 ⟨[], by simp⟩ 4 1 2 s (hopen.exec_rpcSendReq hilog hsend)).lt hpre hy

theorem ResponseTellsLengths.lt (h : ResponseTellsLengths body) :
    body.length + markAndHeader < 2 ^ 32 := by
  have hopen := linkEnv_open 5 ⟨[], .header⟩
  obtain ⟨y, hy, hilog⟩ := hopen.exec_ilog2_lt (.ofNat (body.length + markAndHeader))
  obtain ⟨s, hsend, hpre⟩ := @exists_sent ⟨5, 0, 0, 0, 0⟩ 4 (by decide) {
    mark := { samplePing.mark with dataLen := .ofNat body.length }
    header := { samplePing.header with
      resSendTimeUs := 0, resLenLog := y, messageType := .Response, status := .Ok }
    body := some body } body
  refine (h ⟨5, 0, 0, 0, 0⟩ samplePing.message .Ok 4 s ?_).lt hpre hy
  exact hopen.exec_nowUsec.bind (hilog.bind hsend)

/-- A message that has been sent tells its lengths just when the length of the whole message fits
in 32 bits. -/
theorem tellsLengths_iff (body : Bytes) :
    (RequestTellsLengths body ↔ body.length + markAndHeader < 2 ^ 32) ∧
      (ResponseTellsLengths body ↔ body.length + markAndHeader < 2 ^ 32) :=
  ⟨⟨RequestTellsLengths.lt, requestTellsLengths⟩,
    ⟨ResponseTellsLengths.lt, responseTellsLengths⟩⟩

/-- The mark of a body of `2^32` bytes tells of none. -/
theorem not_tellsLengths_of_wrap :
    ¬RequestTellsLengths (List.replicate (2 ^ 32) 0) ∧
      ¬ResponseTellsLengths (List.replicate (2 ^ 32) 0) := by
  constructor
  · intro h
    have hlt := h.lt
    rw [List.length_replicate] at hlt
    omega
  · intro h
    have hlt := h.lt
    rw [List.length_replicate] at hlt
    omega

end Long

end SoftwareDynamics.Network

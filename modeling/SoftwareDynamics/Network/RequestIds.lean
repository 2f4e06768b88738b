import SoftwareDynamics.Network.Client
import SoftwareDynamics.Network.Footprint

/-! The ids of the requests of one client.  They come from a counter of 32 bits, which starts at one
and which each call of `rpc_send_req` bumps, also one that fails. -/

namespace SoftwareDynamics.Network

open ProofKit Prog

section Model

/-- The `write`s that have been made, which may have any result, as every other operation may. -/
def writesEnv : Env SysOp SysOp.Result (List (Fd × Bytes)) where
  allows _ _ := True
  act s op _ s' :=
    match op with
    | .write fd buf => s' = s ++ [(fd, buf)]
    | _ => s' = s

/-- The client is about to make a request, and does so next. -/
def ClientPc.Requests (args : Args) : ClientPc → Prop
  | .request _ _ _ _ j => j < args.rpcsPerConn.toNat
  | _ => False

/-- What the client has written in each of the rounds in which it calls `rpc_send_req`, by the time
that it has come to a control point. -/
inductive ClientCalls (stored : Bool) (args : Args) : List (List (Fd × Bytes)) → ClientPc → Prop
  | start : ClientCalls stored args [] .start
  | call {calls : List (List (Fd × Bytes))} {pc pc' : ClientPc} {writes : List (Fd × Bytes)} :
      ClientCalls stored args calls pc → pc.Requests args →
      Exec writesEnv (clientCode stored args pc) [] pc' writes →
      ClientCalls stored args (calls ++ [writes]) pc'
  | other {calls : List (List (Fd × Bytes))} {pc pc' : ClientPc} {writes : List (Fd × Bytes)} :
      ClientCalls stored args calls pc → ¬pc.Requests args →
      Exec writesEnv (clientCode stored args pc) [] pc' writes → ClientCalls stored args calls pc'

/-- The request that is written has this id. -/
def CarriesId (writes : List (Fd × Bytes)) (rpcId : UInt32) : Prop :=
  ∃ (fd : Fd) (mark : RPCMark) (header : RPCHeader) (rest : List (Fd × Bytes)),
    writes = (fd, mark.toBytes ++ header.toBytes) :: rest ∧ header.rpcId = rpcId

/-- No request of a client has the id of no request, and requests that are fewer than `2^32 - 1`
calls apart have different ones. -/
def DistinctIds (stored : Bool) (args : Args) : Prop :=
  ∀ calls pc, ClientCalls stored args calls pc →
    (∀ writes ∈ calls, ¬CarriesId writes 0) ∧
    ∀ i j writes writes' rpcId, calls[i]? = some writes → calls[j]? = some writes' → i < j →
      j - i < 2 ^ 32 - 1 → CarriesId writes rpcId → ¬CarriesId writes' rpcId

/-- The client builds a body for its requests: a value that is to be written is not too long. -/
def Args.Builds (args : Args) : Prop :=
  args.command = .Write →
    UInt32.ofNat (genStrDirect args.valueConfig 0).length ≤ 5 * 256 * 1024

end Model

section Counting

variable {stored : Bool} {args : Args} {calls : List (List (Fd × Bytes))} {s : List (Fd × Bytes)}
  {connection : Connection} {logFd : Fd} {i j : Nat} {nextRpcId : UInt32}

/-- What does not write leaves the list as it is. -/
theorem wp_silent {α : Type} {p : Sys α} {Q : α → List (Fd × Bytes) → Prop}
    (hp : p.Only fun op => ∀ fd buf, op ≠ .write fd buf) (h : ∀ a, Q a s) :
    wp writesEnv p Q s := by
  refine wp_mono (hp.wp (J := (· = s)) (fun _ op hop hs => ⟨trivial, fun r s' hr => ?_⟩) rfl)
    fun a s' hs' => hs' ▸ h a
  cases op with
  | write fd buf => exact absurd rfl (hop fd buf)
  | _ => exact Eq.trans hr hs

/-- What has been written first stays the first. -/
theorem wp_first {α : Type} {w : Fd × Bytes} (p : Sys α) (h : ∃ rest, s = w :: rest) :
    wp writesEnv p (fun _ s' => ∃ rest, s' = w :: rest) s := by
  refine (only_true p).wp (fun s op _ hs => ⟨trivial, fun r s' hr => ?_⟩) h
  obtain ⟨rest, rfl⟩ := hs
  cases op with
  | write fd buf => exact ⟨rest ++ [(fd, buf)], hr⟩
  | _ => exact ⟨rest, hr⟩

theorem wp_requestBody_writes {Q : Option Body → List (Fd × Bytes) → Prop}
    (hsome : args.Builds → ∀ body, Q (some body) s) (hnone : Q none s) :
    wp writesEnv (requestBody stored args j) Q s := by
  unfold requestBody
  cases hcommand : args.command with
  | Write =>
    dsimp only
    rw [wp_map, WriteRequest.make]
    split_ifs with hlong
    · exact hnone
    · rw [wp_bind]
      refine wp_silent (only_perform fun _ => nofun) fun pad => hsome (fun _ => ?_) _
      exact UInt32.not_lt.mp hlong
  | _ => exact hsome (fun h => by rw [hcommand] at h; cases h) _

/-- The mark and the header are written first. -/
theorem wp_sendRequest_first (message : RPCMessage) (body : Body) :
    wp writesEnv (sendRequest connection message body logFd)
      (fun _ writes => ∃ rest,
        writes = (connection.sockFd, message.mark.toBytes ++ message.header.toBytes) :: rest)
      [] := by
  cases body with
  | bytes bs =>
    rw [sendRequest, sendMessage, wp_bind]
    exact ⟨trivial, fun r s' hs' => wp_first _ ⟨[], hs'⟩⟩
  | null n =>
    rw [sendRequest, wp_bind]
    exact ⟨trivial, fun r s' hs' => ⟨[], hs'⟩⟩

/-- A call of `rpc_send_req` writes nothing, or first a request with the next id. -/
theorem wp_rpcSendReq_writes (body : Body) (parentRpc : UInt32) (method : CString) :
    wp writesEnv (rpcSendReq connection body parentRpc method logFd nextRpcId)
      (fun r writes => r.2 = nextRpcId + 1 ∧ ∀ rpcId, CarriesId writes rpcId → rpcId = nextRpcId)
      [] := by
  refine wp_rpcSendReq_looks (fun n R hR => wp_silent (only_perform fun _ => nofun) hR)
    fun checksum resLenLog pad => ?_
  refine wp_silent (nowUsec_only fun _ => nofun) fun now => ?_
  cases now with
  | none =>
    refine ⟨rfl, ?_⟩
    rintro _ ⟨_, _, _, _, h, -⟩
    cases h
  | some now =>
    dsimp only
    refine wp_silent (ilog2_only (fun _ _ => nofun) _) fun reqLenLog => ?_
    refine wp_mono (wp_sendRequest_first _ body) fun sent writes hwrites => ⟨rfl, ?_⟩
    obtain ⟨rest, rfl⟩ := hwrites
    rintro _ ⟨fd, mark, header, rest', h, rfl⟩
    obtain ⟨-, rfl⟩ := markAndHeader_inj (Prod.mk.inj (List.cons.inj h).1).2
    rfl

/-- In a round with a call, the client comes to its end or to the next id. -/
theorem wp_request_writes (hj : j < args.rpcsPerConn.toNat) :
    wp writesEnv (clientCode stored args (.request logFd i nextRpcId connection j))
      (fun pc writes =>
        (∀ rpcId, CarriesId writes rpcId → rpcId = nextRpcId ∧ args.Builds) ∧
        (pc = .exited 1 ∨ pc = .faulted ∨
          ∃ response, pc = .accepted logFd i (nextRpcId + 1) connection j response)) [] := by
  rw [clientCode, if_pos hj, wp_bind]
  refine wp_requestBody_writes (fun hbuilds body => ?_) ⟨?_, .inr (.inl rfl)⟩
  · dsimp only
    rw [wp_bind]
    refine wp_mono (wp_rpcSendReq_writes body 0 args.commandStr) ?_
    rintro ⟨sent, next⟩ writes ⟨rfl, hcarries⟩
    have hids : ∀ rpcId, CarriesId writes rpcId → rpcId = nextRpcId ∧ args.Builds :=
      fun rpcId h => ⟨hcarries rpcId h, hbuilds⟩
    dsimp only
    rw [wp_bind]
    refine wp_silent ((recvStamped_only connection .resReceived).mono fun op hop fd buf heq => ?_)
      fun response => ?_
    · subst heq
      exact hop
    · cases response with
      | none => exact ⟨hids, .inl rfl⟩
      | some response => exact ⟨hids, .inr (.inr ⟨response, rfl⟩)⟩
  · rintro _ ⟨_, _, _, _, h, -⟩
    cases h

theorem wp_whatever {α : Type} {Q : α → List (Fd × Bytes) → Prop} {p : Sys α}
    (h : ∀ a s, Q a s) : wp writesEnv p Q s :=
  wp_mono ((only_true p).wp (J := fun _ => True) (fun _ _ _ _ => ⟨trivial, fun _ _ _ => trivial⟩)
    trivial) fun a s _ => h a s

/-- How far the client has come after `c` calls, and which id is next. -/
def ClientPc.At (args : Args) (c : Nat) : ClientPc → Prop
  | .start => c = 0
  | .connect _ i nextRpcId =>
    nextRpcId = .ofNat (c + 1) ∧ i ≤ args.nConns.toNat ∧ c = i * args.rpcsPerConn.toNat
  | .request _ i nextRpcId _ j => nextRpcId = .ofNat (c + 1) ∧ i < args.nConns.toNat ∧
    j ≤ args.rpcsPerConn.toNat ∧ c = i * args.rpcsPerConn.toNat + j
  | .accepted _ i nextRpcId _ j _ | .wait _ i nextRpcId _ j _ =>
    nextRpcId = .ofNat (c + 1) ∧ i < args.nConns.toNat ∧
      j < args.rpcsPerConn.toNat ∧ c = i * args.rpcsPerConn.toNat + (j + 1)
  | .exited _ | .faulted => c ≤ args.nConns.toNat * args.rpcsPerConn.toNat

theorem calls_le {n r : Nat} (hi : i < n) (hj : j ≤ r) : i * r + j ≤ n * r := by
  calc i * r + j ≤ i * r + r := Nat.add_le_add_left hj _
    _ = (i + 1) * r := (Nat.succ_mul i r).symm
    _ ≤ n * r := Nat.mul_le_mul_right r hi

theorem ClientPc.At.le {c : Nat} {pc : ClientPc} (h : pc.At args c) :
    c ≤ args.nConns.toNat * args.rpcsPerConn.toNat := by
  cases pc with
  | start => exact h ▸ Nat.zero_le _
  | connect => exact h.2.2 ▸ Nat.mul_le_mul_right _ h.2.1
  | request => exact h.2.2.2 ▸ calls_le h.2.1 h.2.2.1
  | accepted => exact h.2.2.2 ▸ calls_le h.2.1 h.2.2.1
  | wait => exact h.2.2.2 ▸ calls_le h.2.1 h.2.2.1
  | exited => exact h
  | faulted => exact h

/-- Between two calls the client keeps the next id. -/
theorem ClientPc.At.wp_other {c : Nat} {pc : ClientPc} (h : pc.At args c)
    (hother : ¬pc.Requests args) :
    wp writesEnv (clientCode stored args pc) (fun pc' _ => pc'.At args c) [] := by
  have hle := h.le
  cases pc with
  | start =>
    obtain rfl : c = 0 := h
    rw [clientCode, wp_bind]
    refine wp_whatever fun r s => ?_
    cases r with
    | none => exact hle
    | some logFd => exact ⟨rfl, Nat.zero_le _, (Nat.zero_mul _).symm⟩
  | connect logFd i nextRpcId =>
    obtain ⟨hnext, -, hc⟩ := h
    rw [clientCode]
    split_ifs with hi
    · rw [wp_bind]
      refine wp_whatever fun r s => ?_
      cases r with
      | error err => exact hle
      | ok connection => exact ⟨hnext, hi, Nat.zero_le _, hc⟩
    · exact hle
  | request logFd i nextRpcId connection j =>
    obtain ⟨hnext, hi, hj, hc⟩ := h
    change ¬j < args.rpcsPerConn.toNat at hother
    have hend : j = args.rpcsPerConn.toNat := Nat.le_antisymm hj (Nat.not_lt.mp hother)
    rw [clientCode, if_neg hother, wp_bind]
    refine wp_whatever fun r s => ⟨hnext, hi, ?_⟩
    rw [hc, hend, Nat.succ_mul]
  | accepted logFd i nextRpcId connection j response =>
    rw [clientCode, wp_bind]
    exact wp_whatever fun r s => h
  | wait logFd i nextRpcId connection j response =>
    rw [clientCode, wp_bind]
    refine wp_whatever fun r s => ?_
    cases r with
    | none => exact hle
    | some now =>
      dsimp only
      split_ifs
      · exact h
      · exact h
  | exited status => exact hle
  | faulted => exact hle

/-- The request of a call has the number of the call for its id. -/
theorem ClientCalls.ids {pc : ClientPc} (h : ClientCalls stored args calls pc) :
    pc.At args calls.length ∧ ∀ k writes rpcId, calls[k]? = some writes →
      CarriesId writes rpcId → rpcId = .ofNat (k + 1) ∧ args.Builds := by
  induction h with
  | start => exact ⟨rfl, fun k writes rpcId hk => by cases hk⟩
  | @call calls pc pc' writes _ hrequests hexec ih =>
    obtain ⟨hat, hids⟩ := ih
    cases pc with
    | request logFd i nextRpcId connection j =>
      obtain ⟨rfl, hi, -, hc⟩ := hat
      obtain ⟨hcarries, hpc⟩ := hexec.of_wp (wp_request_writes hrequests)
      constructor
      · rw [List.length_append, List.length_singleton]
        have hle : calls.length + 1 ≤ args.nConns.toNat * args.rpcsPerConn.toNat := by
          rw [hc, Nat.add_assoc]
          exact calls_le hi hrequests
        rcases hpc with rfl | rfl | ⟨response, rfl⟩
        · exact hle
        · exact hle
        · refine ⟨?_, hi, hrequests, by rw [hc, Nat.add_assoc]⟩
          rw [UInt32.ofNat_add (calls.length + 1) 1]
          rfl
      · intro k writes' rpcId hk hid
        rcases Nat.lt_or_ge k calls.length with hlt | hge
        · rw [List.getElem?_append_left hlt] at hk
          exact hids k writes' rpcId hk hid
        · have hk' : k = calls.length := by
            have hlt := (List.getElem?_eq_some_iff.mp hk).1
            rw [List.length_append, List.length_singleton] at hlt
            omega
          subst hk'
          rw [List.getElem?_append_right (Nat.le_refl _), Nat.sub_self] at hk
          cases hk
          exact hcarries rpcId hid
    | _ => exact hrequests.elim
  | other _ hother hexec ih => exact ⟨hexec.of_wp (ih.1.wp_other hother), ih.2⟩

/-- Fewer than `2^32` calls do not use the counter up. -/
theorem distinctIds_of_lt
    (h : args.Builds → args.nConns.toNat * args.rpcsPerConn.toNat < 2 ^ 32) :
    DistinctIds stored args := by
  intro calls pc hcalls
  obtain ⟨hat, hids⟩ := hcalls.ids
  have hle := hat.le
  constructor
  · intro writes hmem hzero
    obtain ⟨k, hk⟩ := List.getElem?_of_mem hmem
    have hlt := (List.getElem?_eq_some_iff.mp hk).1
    obtain ⟨heq, hbuilds⟩ := hids k writes 0 hk hzero
    have hmany := h hbuilds
    have hnat := congrArg UInt32.toNat heq
    rw [UInt32.toNat_ofNat', Nat.mod_eq_of_lt (by omega)] at hnat
    cases hnat
  · intro i j writes writes' rpcId hi hj hij hdist hid hid'
    have heq := (hids i writes rpcId hi hid).1.symm.trans (hids j writes' rpcId hj hid').1
    have hnat := congrArg UInt32.toNat heq
    rw [UInt32.toNat_ofNat', UInt32.toNat_ofNat'] at hnat
    omega

end Counting

section Wrapping

variable {stored : Bool} {args : Args} {s : List (Fd × Bytes)} {connection : Connection} {i j : Nat}
  {nextRpcId : UInt32}

theorem writesEnv_open (s : List (Fd × Bytes)) : Open writesEnv s :=
  ⟨fun _ _ _ => rfl, fun _ _ => rfl, fun _ => rfl, fun _ _ => rfl⟩

/-- Every `write` may be complete. -/
theorem exec_write (s : List (Fd × Bytes)) (fd : Fd) (buf : Bytes) :
    Exec writesEnv (sys (.write fd buf)) s (some (Fin.last buf.length)) (s ++ [(fd, buf)]) :=
  .perform (show writesEnv.act s (.write fd buf) _ _ from rfl)

theorem exists_log (s : List (Fd × Bytes)) (logFd : Fd) (message : RPCMessage) :
    ∃ t, Exec writesEnv (log logFd message) s (some ()) t :=
  ⟨_, (exec_write s logFd _).bind ((exec_write _ logFd _).bind (.ret _ _))⟩

/-- A message may be sent and logged, or its mark and its header only. -/
theorem exists_sendRequest (connection : Connection) (message : RPCMessage) (body : Body) :
    ∃ sent t, Exec writesEnv (sendRequest connection message body 4) [] sent t := by
  cases body with
  | null n => exact ⟨none, _, (exec_write _ _ _).bind (.ret _ _)⟩
  | bytes body =>
    obtain ⟨t, hlog⟩ := exists_log
      [(connection.sockFd, message.mark.toBytes ++ message.header.toBytes),
        (connection.sockFd, body)] 4 message
    refine ⟨some (), t, (exec_write _ _ _).bind ?_⟩
    simp only [wroteAll_last, Bool.not_true, Bool.false_eq_true, if_false]
    refine (exec_write _ _ _).bind ?_
    simp only [wroteAll_last, Bool.not_true, Bool.false_eq_true, if_false]
    rw [if_pos (by decide)]
    exact hlog.bind (.ret _ t)

theorem exists_requestBody (hbuilds : args.Builds) :
    ∃ body, Exec writesEnv (requestBody stored args j) s (some body) s := by
  unfold requestBody
  cases hcommand : args.command with
  | Write =>
    have hshort : ¬UInt32.ofNat (genStrDirect args.valueConfig j).length > 5 * 256 * 1024 :=
      UInt32.not_lt.mpr (hbuilds hcommand)
    dsimp only
    rw [WriteRequest.make, if_neg hshort]
    exact ⟨_, .call ((writesEnv_open s).indeterminate 3 ⟨[0, 0, 0], rfl⟩) (.ret _ s)⟩
  | _ => exact ⟨_, .ret _ s⟩

/-- A call may begin to send its request, and any response may be received. -/
theorem exists_call (hbuilds : args.Builds) (hj : j < args.rpcsPerConn.toNat) :
    ∃ (writes : List (Fd × Bytes)) (response : Frame), response.header.resRecvTimeUs = 0 ∧
      CarriesId writes nextRpcId ∧
      Exec writesEnv (clientCode stored args (.request 4 i nextRpcId connection j)) []
        (.accepted 4 i (nextRpcId + 1) connection j response) writes := by
  have hopen := writesEnv_open []
  obtain ⟨body, hbody⟩ := @exists_requestBody stored args [] j hbuilds
  obtain ⟨reqLenLog, hilog⟩ := hopen.exec_ilog2 (.ofNat (body.length + markAndHeader))
  obtain ⟨sent, writes, hsend⟩ := exists_sendRequest connection (requestMessage connection body 0
    args.commandStr nextRpcId (.fit 4 []) (.fit 1 []) (.fit 4 []) 0 reqLenLog) body
  have hreq : Exec writesEnv (rpcSendReq connection body 0 args.commandStr 4 nextRpcId) []
      (sent, nextRpcId + 1) writes := hopen.exec_rpcSendReq hilog hsend
  have hresp : Exec writesEnv (rpcRecvResp connection) writes
      (some (Frame.resReceived (.request [] [] (by decide)) 0)) writes :=
    ((writesEnv_open writes).exec_recvMessage connection _).bind
      ((writesEnv_open writes).exec_nowUsec.bind (.ret _ _))
  refine ⟨writes, Frame.resReceived (.request [] [] (by decide)) 0, rfl, ?_, ?_⟩
  · obtain ⟨rest, rfl⟩ := hsend.of_wp (wp_sendRequest_first _ body)
    exact ⟨_, _, _, rest, rfl, rfl⟩
  · rw [clientCode, if_pos hj]
    exact hbody.bind (hreq.bind (hresp.bind (.ret _ _)))

/-- The clock may have gone on for long enough. -/
theorem exec_wait_leave {response : Frame} (h : response.header.resRecvTimeUs = 0) :
    Exec writesEnv (clientCode stored args (.wait 4 i nextRpcId connection j response)) []
      (.request 4 i nextRpcId connection (j + 1)) [] := by
  have husec : (⟨0, 4294967296⟩ : Timeval).usec = 4294967296 := by decide
  have hnow : Exec writesEnv nowUsec [] (some (Timeval.usec ⟨0, 4294967296⟩)) [] :=
    .call ((writesEnv_open []).gettimeofday (some ⟨0, 4294967296⟩)) (.ret _ [])
  have hleave : ¬(4294967296 : UInt64) - response.header.resRecvTimeUs <
      (args.waitMs * 1000).toUInt64 := by
    have hlt := (args.waitMs * 1000).toNat_lt
    rw [h, UInt64.sub_zero, UInt64.lt_iff_toNat_lt, UInt32.toNat_toUInt64]
    exact Nat.not_lt.mpr (Nat.le_of_lt hlt)
  rw [husec] at hnow
  refine hnow.bind ?_
  dsimp only
  rw [if_neg hleave]
  exact .ret _ []

theorem exists_connect (hi : i < args.nConns.toNat) :
    ∃ connection, Exec writesEnv (clientCode stored args (.connect 4 i nextRpcId)) []
      (.request 4 i nextRpcId connection 0) [] := by
  have act (op : SysOp) (hop : ∀ fd buf, op ≠ .write fd buf) (r : op.Result) :
      writesEnv.act [] op r [] := by
    cases op with
    | write fd buf => exact absurd rfl (hop fd buf)
    | _ => rfl
  have hconnect : Exec writesEnv (tcpConnect args.server args.port) []
      (.ok ⟨5, 0, 0, 0, htons args.port⟩) [] := by
    refine .call (act .socket (fun _ => nofun) (.ok 5)) ?_
    refine .call (act (.inetPton _) (fun _ => nofun) (.ok (some 0))) ?_
    refine .call (act (.connect 5 _) (fun _ => nofun) (.ok ())) ?_
    refine .call (act (.getsockname 5) (fun _ => nofun) (.ok (⟨0, 0⟩, sockAddrLen))) ?_
    exact .ret _ _
  refine ⟨⟨5, 0, 0, 0, htons args.port⟩, ?_⟩
  rw [clientCode, if_pos hi]
  exact hconnect.bind (.ret _ _)

/-- The client may come to the request number `j` of connection `i`, after a call for each request
before it. -/
def Comes (stored : Bool) (args : Args) (i j : Nat) : Prop :=
  ∃ (calls : List (List (Fd × Bytes))) (connection : Connection),
    calls.length = i * args.rpcsPerConn.toNat + j ∧
    ClientCalls stored args calls (.request 4 i (.ofNat (calls.length + 1)) connection j)

theorem Comes.connect {calls : List (List (Fd × Bytes))} (hi : i < args.nConns.toNat)
    (hlen : calls.length = i * args.rpcsPerConn.toNat)
    (h : ClientCalls stored args calls (.connect 4 i (.ofNat (calls.length + 1)))) :
    Comes stored args i 0 := by
  obtain ⟨connection, hexec⟩ := @exists_connect stored args i (.ofNat (calls.length + 1)) hi
  exact ⟨calls, connection, hlen, h.other id hexec⟩

theorem Comes.start (hi : 0 < args.nConns.toNat) : Comes stored args 0 0 := by
  have hexec : Exec writesEnv (clientCode stored args .start) [] (.connect 4 0 1) [] :=
    .call (show writesEnv.act [] (.creat clientLogFn) (some 4) [] from rfl) (.ret _ [])
  exact @Comes.connect stored args 0 [] hi (Nat.zero_mul _).symm (ClientCalls.start.other id hexec)

theorem Comes.next (hbuilds : args.Builds) (hj : j < args.rpcsPerConn.toNat)
    (h : Comes stored args i j) : Comes stored args i (j + 1) := by
  obtain ⟨calls, connection, hlen, hcalls⟩ := h
  obtain ⟨writes, response, hzero, -, hexec⟩ :=
    @exists_call stored args connection i j (.ofNat (calls.length + 1)) hbuilds hj
  obtain ⟨t, hlog⟩ := exists_log [] 4 response.message
  have haccepted : ClientCalls stored args (calls ++ [writes])
      (.wait 4 i (.ofNat (calls.length + 1) + 1) connection j response) :=
    (hcalls.call hj hexec).other id (hlog.bind (.ret _ t))
  refine ⟨calls ++ [writes], connection, by simp [hlen, Nat.add_assoc], ?_⟩
  have hnext : UInt32.ofNat ((calls ++ [writes]).length + 1) = .ofNat (calls.length + 1) + 1 := by
    rw [List.length_append, List.length_singleton, UInt32.ofNat_add (calls.length + 1) 1]
    rfl
  rw [hnext]
  exact haccepted.other id (exec_wait_leave hzero)

theorem Comes.leave (hi : i + 1 < args.nConns.toNat)
    (h : Comes stored args i args.rpcsPerConn.toNat) : Comes stored args (i + 1) 0 := by
  obtain ⟨calls, connection, hlen, hcalls⟩ := h
  have hexec : Exec writesEnv
      (clientCode stored args (.request 4 i (.ofNat (calls.length + 1)) connection
        args.rpcsPerConn.toNat)) []
      (.connect 4 (i + 1) (.ofNat (calls.length + 1))) [] := by
    rw [clientCode, if_neg (Nat.lt_irrefl _)]
    exact .call (show writesEnv.act [] (.close connection.sockFd) true [] from rfl) (.ret _ [])
  exact .connect hi (by rw [hlen, Nat.succ_mul]) (hcalls.other (Nat.lt_irrefl _) hexec)

/-- The client may come to each of its requests. -/
theorem comes (hbuilds : args.Builds) (hi : i < args.nConns.toNat)
    (hj : j ≤ args.rpcsPerConn.toNat) : Comes stored args i j := by
  have along {i : Nat} (hstart : Comes stored args i 0) :
      ∀ j ≤ args.rpcsPerConn.toNat, Comes stored args i j := by
    intro j
    induction j with
    | zero => exact fun _ => hstart
    | succ j ih => exact fun hj => (ih (Nat.le_of_succ_le hj)).next hbuilds hj
  induction i generalizing j with
  | zero => exact along (.start hi) j hj
  | succ i ih => exact along ((ih (Nat.lt_of_succ_lt hi) (Nat.le_refl _)).leave hi) j hj

/-- The call number `2^32` sends the id zero. -/
theorem DistinctIds.lt (h : DistinctIds stored args) (hbuilds : args.Builds) :
    args.nConns.toNat * args.rpcsPerConn.toNat < 2 ^ 32 := by
  by_contra hmany
  have hlast : 2 ^ 32 - 1 < args.rpcsPerConn.toNat * args.nConns.toNat := by
    rw [Nat.mul_comm]
    omega
  have hr : 0 < args.rpcsPerConn.toNat := Nat.pos_of_mul_pos_right (Nat.zero_lt_of_lt hlast)
  obtain ⟨calls, connection, hlen, hcalls⟩ := comes hbuilds (Nat.div_lt_of_lt_mul hlast)
    (Nat.le_of_lt (Nat.mod_lt (2 ^ 32 - 1) hr))
  rw [Nat.div_add_mod'] at hlen
  have hzero : UInt32.ofNat (calls.length + 1) = 0 := by
    rw [hlen]
    rfl
  rw [hzero] at hcalls
  obtain ⟨writes, response, -, hcarries, hexec⟩ :=
    @exists_call stored args connection _ _ 0 hbuilds (Nat.mod_lt (2 ^ 32 - 1) hr)
  exact (h _ _ (hcalls.call (Nat.mod_lt _ hr) hexec)).1 writes (by simp) hcarries

/-- The ids are as they should be just when the client makes fewer than `2^32` calls. -/
theorem distinctIds_iff (stored : Bool) (args : Args) :
    DistinctIds stored args ↔
      (args.Builds → args.nConns.toNat * args.rpcsPerConn.toNat < 2 ^ 32) :=
  ⟨DistinctIds.lt, distinctIds_of_lt⟩

/-- A `ping` on each of 65536 connections, 65536 times. -/
def manyPings : Args where
  server := ⟨ascii "127.0.0.1", loopback_noNul⟩
  port := 12345
  nConns := 65536
  rpcsPerConn := 65536
  waitMs := 0
  seed1 := false
  verbose := false
  command := .Ping
  commandStr := ⟨ascii "ping", by decide⟩
  commandStr_eq := rfl
  keyConfig := ⟨none, false, 0⟩
  valueConfig := ⟨none, false, 0⟩

theorem not_distinctIds_manyPings :
    ¬DistinctIds true manyPings ∧ ¬DistinctIds false manyPings := by
  have hmany {stored : Bool} (h : DistinctIds stored manyPings) : False := by
    have hlt : 65536 * 65536 < 2 ^ 32 := h.lt nofun
    omega
  exact ⟨hmany, hmany⟩

end Wrapping

end SoftwareDynamics.Network

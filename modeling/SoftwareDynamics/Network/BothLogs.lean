import SoftwareDynamics.Network.RoundTrip
import SoftwareDynamics.Network.Footprint
import SoftwareDynamics.Network.LogFile

/-! What the two ends of a connection log of one message.  The sender logs what it has in memory,
the receiver what it has got. -/

namespace SoftwareDynamics.Network

open ProofKit Prog

section Model

/-- What is written to a descriptor. -/
def written (fd : Fd) : (op : SysOp) → op.Result → Bytes → Bytes
  | .write fd' buf, some n, bs => if fd' = fd then bs ++ buf.take n else bs
  | _, _, bs => bs

/-- A run of a sender that succeeds, with the bytes that it has sent and logged. -/
def SendsAndLogs {α : Type} (connection : Connection) (logFd : Fd) (p : Sys α) (result : α)
    (sent logged : Bytes) : Prop :=
  ∃ e, Exec ((senderEnv connection logFd).ghost (written logFd)) p (.fresh ∅, []) result
    (e, logged) ∧ e.sent = sent

/-- Receives a message and logs it, as both ends do. -/
def receiveAndLog (receive : Sys (Option Frame)) (logFd : Fd) : Sys (Option Unit) := do
  let some message ← receive | return none
  let _ ← log logFd message.message
  return some ()

/-- A run of a receiver that succeeds at the start of a stream, with the bytes that it has
logged. -/
def ReceivesAndLogs (connection : Connection) (logFd : Fd) (receive : Sys (Option Frame))
    (stream logged : Bytes) : Prop :=
  ∃ e, Exec ((streamEnv connection logFd stream).ghost (written logFd))
    (receiveAndLog receive logFd) (.fresh ∅, []) (some ()) (e, logged)

/-- A client sends a request and logs it, and a server receives it, however the stream is cut, and
logs it. -/
inductive LoggedRequest (c : ReqCall) (atClient atServer : Bytes) : Prop
  | intro (client server : Connection) (clientLog serverLog : Fd) (rpcId : UInt32)
      (sent behind : Bytes) : 0 ≤ clientLog → clientLog ≠ client.sockFd →
      serverLog ≠ server.sockFd →
      SendsAndLogs client clientLog (rpcSendReq client c.body c.parentRpc c.method clientLog rpcId)
        (some (), rpcId + 1) sent atClient →
      ReceivesAndLogs server serverLog (rpcRecvReq server) (sent ++ behind) atServer →
      LoggedRequest c atClient atServer

/-- A server sends a response and logs it, and a client receives it, however the stream is cut, and
logs it. -/
inductive LoggedResponse (c : RespCall) (atServer atClient : Bytes) : Prop
  | intro (server client : Connection) (serverLog clientLog : Fd) (sent behind : Bytes) :
      0 ≤ serverLog → serverLog ≠ server.sockFd → clientLog ≠ client.sockFd →
      SendsAndLogs server serverLog
        (rpcSendResp server c.request.message c.body c.status serverLog) (some ()) sent atServer →
      ReceivesAndLogs client clientLog (rpcRecvResp client) (sent ++ behind) atClient →
      LoggedResponse c atServer atClient

/-- Both ends have logged one record, with the first 24 bytes of the body and with headers that
differ in what `clear` clears at most. -/
def SameRecord (clear : RPCHeader → RPCHeader) (body : Bytes) (sender receiver : Bytes) : Prop :=
  ∃ m m' : LogMessage, sender = m.toBytes ∧ receiver = m'.toBytes ∧
    clear m.header = clear m'.header ∧ m.body = .fit 24 body ∧ m'.body = .fit 24 body

def RPCHeader.clearReqRecvTime (h : RPCHeader) : RPCHeader := { h with reqRecvTimeUs := 0 }

def RPCHeader.clearResRecvTime (h : RPCHeader) : RPCHeader := { h with resRecvTimeUs := 0 }

end Model

section Rules

variable {connection : Connection} {logFd : Fd} {arrives : Bytes → Bytes → Prop}
  {e : Endpoint Keystore} {logged : Bytes}

/-- One end of a connection, with what it has logged. -/
abbrev loggedEnv (connection : Connection) (logFd : Fd) (arrives : Bytes → Bytes → Prop) :
    Env SysOp SysOp.Result (Endpoint Keystore × Bytes) :=
  (endpointEnv connection.sockFd logFd .alone arrives).ghost (written logFd)

theorem wp_writeLog (hlog : logFd ≠ connection.sockFd) {buf : Bytes}
    {Q : Option (Fin (buf.length + 1)) → Endpoint Keystore × Bytes → Prop}
    (h : Q (some (Fin.last _)) (e, logged ++ buf)) :
    wp (loggedEnv connection logFd arrives) (sys (.write logFd buf)) Q (e, logged) := by
  refine ⟨.inr rfl, ?_⟩
  rintro r ⟨e', logged'⟩ ⟨⟨rfl, rfl⟩, hnote⟩
  have hlogged : logged' = logged ++ buf := hnote.trans (by simp [written])
  rwa [hlogged, if_neg hlog]

theorem wp_writeSock (hlog : logFd ≠ connection.sockFd) {buf : Bytes}
    {Q : Option (Fin (buf.length + 1)) → Endpoint Keystore × Bytes → Prop}
    (h : Q (some (Fin.last _)) (e.send buf, logged)) :
    wp (loggedEnv connection logFd arrives) (sys (.write connection.sockFd buf)) Q (e, logged) := by
  refine ⟨.inl rfl, ?_⟩
  rintro r ⟨e', logged'⟩ ⟨⟨rfl, rfl⟩, hnote⟩
  have hlogged : logged' = logged := hnote.trans (if_neg hlog.symm)
  rwa [hlogged, if_pos rfl]

/-- What is logged of a message, as a record. -/
def logRecord (message : RPCMessage) : LogMessage := ⟨message.header, logBody message⟩

theorem wp_logRecord (hlog : logFd ≠ connection.sockFd) {message : RPCMessage}
    {Q : Option Unit → Endpoint Keystore × Bytes → Prop}
    (h : Q (some ()) (e, logged ++ (logRecord message).toBytes)) :
    wp (loggedEnv connection logFd arrives) (log logFd message) Q (e, logged) := by
  rw [log, wp_bind]
  apply wp_writeLog hlog
  rw [Option.isNone_some, if_neg Bool.false_ne_true, wp_bind]
  apply wp_writeLog hlog
  rw [Option.isNone_some, if_neg Bool.false_ne_true, List.append_assoc]
  exact h

/-- A sender logs the message that it has in memory. -/
theorem wp_sendLogged (hlog : logFd ≠ connection.sockFd) (hnonneg : 0 ≤ logFd)
    {message : RPCMessage} {body : Bytes} {Q : Option Unit → Endpoint Keystore × Bytes → Prop}
    (h : Q (some ()) (e.send (message.mark.toBytes ++ message.header.toBytes ++ body),
      logged ++ (logRecord message).toBytes)) :
    wp (loggedEnv connection logFd arrives) (sendMessage connection message body logFd) Q
      (e, logged) := by
  have hsend : (e.send (message.mark.toBytes ++ message.header.toBytes)).send body =
      e.send (message.mark.toBytes ++ message.header.toBytes ++ body) := by
    simp [Endpoint.send]
  rw [sendMessage, wp_bind]
  apply wp_writeSock hlog
  simp only [wroteAll_last, Bool.not_true, Bool.false_eq_true, if_false, wp_bind]
  apply wp_writeSock hlog
  simp only [wroteAll_last, Bool.not_true, Bool.false_eq_true, if_false]
  rw [if_pos hnonneg, wp_bind, hsend]
  exact wp_logRecord hlog h

theorem Frame.logRecord_eq (f : Frame) : logRecord f.message = ⟨f.header, .fit 24 f.data⟩ := by
  have hformed : f.message.WellFormed := by
    rintro body ⟨rfl⟩
    exact f.dataLen_eq.symm
  rw [logRecord, hformed.logBody_eq]
  rfl

/-- A program that does not write to the log does as it does where nothing is logged. -/
theorem wp_unlogged {α : Type} {p : Sys α} {Q : α → Endpoint Keystore → Prop}
    (hp : p.Only fun op => ∀ r bs, written logFd op r bs = bs)
    (h : wp (watched connection logFd .alone fun _ => True) p Q e) :
    wp (loggedEnv connection logFd anything) p (fun a x => Q a x.1 ∧ x.2 = logged) (e, logged) :=
  Env.wp_ghost hp (Env.wp_of_watch h) logged

/-- The address and the port of the client that a header carries. -/
def RPCHeader.client (h : RPCHeader) : SockAddrIn := ⟨h.clientIp, h.clientPort⟩

/-- The address and the port of the server that a header carries. -/
def RPCHeader.server (h : RPCHeader) : SockAddrIn := ⟨h.serverIp, h.serverPort⟩

/-- A sender that was asked to send `body` has sent this message and logged it. -/
structure HasSent (message : RPCMessage) (body : Bytes) (e e' : Endpoint Keystore)
    (logged logged' : Bytes) : Prop where
  headerLen : message.mark.headerLen.toNat = headerSize
  dataLen : message.mark.dataLen = .ofNat body.length
  sent : e'.sent = e.sent ++ (message.mark.toBytes ++ message.header.toBytes ++ body)
  record : logged' = logged ++ (logRecord message).toBytes

/-- What `rpc_send_req` sends and logs.  The message that it logs has no body. -/
theorem wp_rpcSendReq_hasSent (hlog : logFd ≠ connection.sockFd) (hnonneg : 0 ≤ logFd)
    (c : ReqCall) (rpcId : UInt32) :
    wp (loggedEnv connection logFd anything)
      (rpcSendReq connection c.body c.parentRpc c.method logFd rpcId)
      (fun r x => r = (some (), rpcId + 1) ∧ ∃ message, HasSent message c.body e x.1 logged x.2 ∧
        message.body = none ∧ message.header.reqRecvTimeUs = 0 ∧
        message.header.client = ⟨connection.clientIp, connection.clientPort⟩ ∧
        message.header.server = ⟨connection.serverIp, connection.serverPort⟩) (e, logged) := by
  have look (n : Nat) (R : Octets n → Endpoint Keystore × Bytes → Prop)
      (hR : ∀ bs, R bs (e, logged)) :
      wp (loggedEnv connection logFd anything) (sys (.indeterminate n)) R (e, logged) := by
    refine ⟨trivial, ?_⟩
    rintro bs ⟨e', logged'⟩ ⟨he, hnote⟩
    obtain rfl : e' = e := he
    obtain rfl : logged' = logged := hnote
    exact hR bs
  refine wp_rpcSendReq_looks look fun checksum resLenLog pad => ?_
  refine wp_mono (wp_unlogged (nowUsec_only fun _ _ => rfl)
    (wp_nowUsec (Q := fun r e' => ∃ now, r = some now ∧ e' = e.look now) trivial
      fun now => ⟨now, rfl, rfl⟩)) ?_
  rintro _ ⟨_, _⟩ ⟨⟨now, rfl, rfl⟩, rfl⟩
  dsimp only
  refine wp_mono (wp_unlogged (ilog2_only (fun _ _ _ => rfl) _)
    (wp_ilog2 (Q := fun _ e' => e' = e.look now) trivial fun _ => rfl)) ?_
  rintro reqLenLog ⟨_, _⟩ ⟨rfl, rfl⟩
  apply wp_sendLogged hlog hnonneg
  exact ⟨rfl, _, ⟨rfl, rfl, rfl, rfl⟩, rfl, rfl, rfl, rfl⟩

/-- What `rpc_send_resp` sends and logs. -/
theorem wp_rpcSendResp_hasSent (hlog : logFd ≠ connection.sockFd) (hnonneg : 0 ≤ logFd)
    (c : RespCall) :
    wp (loggedEnv connection logFd anything)
      (rpcSendResp connection c.request.message c.body c.status logFd)
      (fun r x => r = some () ∧ ∃ message, HasSent message c.body e x.1 logged x.2 ∧
        message.body = some c.body ∧ message.header.client = c.request.header.client ∧
        message.header.server = c.request.header.server) (e, logged) := by
  rw [rpcSendResp, wp_bind]
  refine wp_mono (wp_unlogged (nowUsec_only fun _ _ => rfl)
    (wp_nowUsec (Q := fun r e' => ∃ now, r = some now ∧ e' = e.look now) trivial
      fun now => ⟨now, rfl, rfl⟩)) ?_
  rintro _ ⟨_, _⟩ ⟨⟨now, rfl, rfl⟩, rfl⟩
  dsimp only
  rw [wp_bind]
  refine wp_mono (wp_unlogged (ilog2_only (fun _ _ _ => rfl) _)
    (wp_ilog2 (Q := fun _ e' => e' = e.look now) trivial fun _ => rfl)) ?_
  rintro resLenLog ⟨_, _⟩ ⟨rfl, rfl⟩
  apply wp_sendLogged hlog hnonneg
  exact ⟨rfl, _, ⟨c.request.headerLen_eq, rfl, rfl, rfl⟩, rfl, rfl, rfl⟩

/-- What is sent begins with a frame, which is all of it if its length fits the mark. -/
theorem HasSent.frame {message : RPCMessage} {body logged' : Bytes} {e' : Endpoint Keystore}
    (h : HasSent message body e e' logged logged') :
    ∃ (f : Frame) (rest : Bytes), e'.sent = e.sent ++ (f.toBytes ++ rest) ∧
      f.header = message.header ∧ (body.length < 2 ^ 32 → f.data = body ∧ rest = []) := by
  have hle : message.mark.dataLen.toNat ≤ body.length := by
    rw [h.dataLen, UInt32.toNat_ofNat']
    exact Nat.mod_le _ _
  refine ⟨⟨message.mark, message.header, body.take message.mark.dataLen.toNat, h.headerLen,
    (List.length_take_of_le hle).symm⟩, body.drop message.mark.dataLen.toNat, ?_, rfl,
    fun hbody => ?_⟩
  · simp only [h.sent, Frame.toBytes, List.append_assoc, List.take_append_drop]
  · have hlen : message.mark.dataLen.toNat = body.length := by
      rw [h.dataLen, UInt32.toNat_ofNat_of_lt' hbody]
    exact ⟨List.take_of_length_le (Nat.le_of_eq hlen.symm),
      List.drop_of_length_le (Nat.le_of_eq hlen.symm)⟩

/-- The frame that `rpc_send_req` sends, and the record, which has the header of the request, but no
body. -/
theorem wp_rpcSendReq_logged (hlog : logFd ≠ connection.sockFd) (hnonneg : 0 ≤ logFd) {c : ReqCall}
    (hbody : c.body.length < 2 ^ 32) (rpcId : UInt32) :
    wp (loggedEnv connection logFd anything)
      (rpcSendReq connection c.body c.parentRpc c.method logFd rpcId)
      (fun r x => r = (some (), rpcId + 1) ∧ ∃ f : Frame, f.data = c.body ∧
        f.header.reqRecvTimeUs = 0 ∧ x.1.sent = e.sent ++ f.toBytes ∧
        x.2 = logged ++ (⟨f.header, .fit 24 []⟩ : LogMessage).toBytes) (e, logged) := by
  refine wp_mono (wp_rpcSendReq_hasSent hlog hnonneg c rpcId) ?_
  rintro r ⟨e', logged'⟩ ⟨hr, message, hsent, hnull, htime, -, -⟩
  obtain ⟨f, rest, hbytes, hheader, hwhole⟩ := hsent.frame
  obtain ⟨hdata, rfl⟩ := hwhole hbody
  rw [List.append_nil] at hbytes
  have hrecord : logRecord message = ⟨f.header, .fit 24 []⟩ := by
    rw [logRecord, logBody, hnull, hheader]
  exact ⟨hr, f, hdata, by rw [hheader, htime], hbytes, by rw [← hrecord]; exact hsent.record⟩

/-- The frame that `rpc_send_resp` sends, and the record, which is that of the response. -/
theorem wp_rpcSendResp_logged (hlog : logFd ≠ connection.sockFd) (hnonneg : 0 ≤ logFd)
    {c : RespCall} (hbody : c.body.length < 2 ^ 32) :
    wp (loggedEnv connection logFd anything)
      (rpcSendResp connection c.request.message c.body c.status logFd)
      (fun r x => r = some () ∧ ∃ f : Frame, f.data = c.body ∧ x.1.sent = e.sent ++ f.toBytes ∧
        x.2 = logged ++ (⟨f.header, .fit 24 c.body⟩ : LogMessage).toBytes) (e, logged) := by
  refine wp_mono (wp_rpcSendResp_hasSent hlog hnonneg c) ?_
  rintro r ⟨e', logged'⟩ ⟨hr, message, hsent, hsome, -, -⟩
  obtain ⟨f, rest, hbytes, hheader, hwhole⟩ := hsent.frame
  obtain ⟨hdata, rfl⟩ := hwhole hbody
  rw [List.append_nil] at hbytes
  have hformed : message.WellFormed := by
    intro body hmem
    rw [hsome] at hmem
    obtain rfl := Option.mem_some_iff.mp hmem
    rw [hsent.dataLen, UInt32.toNat_ofNat_of_lt' hbody]
  have hrecord : logRecord message = ⟨f.header, .fit 24 c.body⟩ := by
    rw [logRecord, hformed.logBody_eq, RPCMessage.record, hsome, hheader]
    rfl
  exact ⟨hr, f, hdata, hbytes, by rw [← hrecord]; exact hsent.record⟩

/-- A receiver logs the frame that it has got, with the time. -/
theorem wp_receiveAndLog (hlog : logFd ≠ connection.sockFd) {stamp : Frame → UInt64 → Frame}
    {f : Frame} {behind : Bytes} :
    wp (loggedEnv connection logFd (Arrives (f.toBytes ++ behind)))
      (receiveAndLog (recvStamped connection stamp) logFd)
      (fun r x => r = some () ∧ ∃ now,
        x.2 = (⟨(stamp f now).header, .fit 24 (stamp f now).data⟩ : LogMessage).toBytes)
      (.fresh ∅, []) := by
  have honly : (recvStamped connection stamp).Only
      fun op => ∀ r bs, written logFd op r bs = bs := by
    refine (recvStamped_only connection stamp).mono fun op hop r bs => ?_
    cases op <;> first | rfl | exact hop.elim
  have hstream : (Endpoint.fresh (∅ : Keystore)).got ++ (f.toBytes ++ behind) =
      f.toBytes ++ behind := List.nil_append _
  rw [receiveAndLog, wp_bind]
  refine wp_mono (Env.wp_ghost honly (wp_recvStamped_next hstream) []) ?_
  rintro _ ⟨e, _⟩ ⟨⟨⟨now, rfl⟩, -⟩, rfl⟩
  dsimp only
  rw [wp_bind]
  apply wp_logRecord hlog
  exact ⟨rfl, now, by rw [Frame.logRecord_eq, List.nil_append]⟩

end Rules

section Agreement

theorem fit_eq_fit_nil_iff (n : Nat) (bs : Bytes) :
    Octets.fit n bs = Octets.fit n [] ↔ ∀ b ∈ bs.take n, b = 0 := by
  have hzeros : (Octets.fit n []).1 = List.replicate n 0 := by simp [Octets.fit]
  have hfit : (Octets.fit n bs).1 = bs.take n ++ List.replicate (n - bs.length) 0 := rfl
  rw [Subtype.ext_iff, hzeros, hfit]
  constructor
  · intro h b hb
    have hmem := List.mem_append_left (List.replicate (n - bs.length) 0) hb
    rw [h] at hmem
    exact List.eq_of_mem_replicate hmem
  · intro h
    rw [List.eq_replicate_of_mem h, List.replicate_append_replicate, List.length_take]
    congr 1
    omega

/-- Sender and receiver have logged the records `m` and `m'` of a message with this body. -/
theorem sameRecord_iff {clear : RPCHeader → RPCHeader} {body : Bytes} {m m' : LogMessage}
    (hheader : clear m.header = clear m'.header) (hbody : m'.body = .fit 24 body) :
    SameRecord clear body m.toBytes m'.toBytes ↔ m.body = .fit 24 body := by
  constructor
  · rintro ⟨n, n', hn, -, -, hsame, -⟩
    have hmn := congrArg LogMessage.ofBytes hn
    rw [LogMessage.ofBytes_toBytes, LogMessage.ofBytes_toBytes] at hmn
    rw [hmn, hsame]
  · intro h
    exact ⟨m, m', rfl, rfl, hheader, h, hbody⟩

/-- The two ends log one record of a request if and only if there is nothing but zeros in the part
of its body that is logged, since `rpc_send_req` has no body in the message that it logs. -/
theorem LoggedRequest.sameRecord_iff {c : ReqCall} {atClient atServer : Bytes}
    (h : LoggedRequest c atClient atServer) (hbody : c.body.length < 2 ^ 32) :
    SameRecord RPCHeader.clearReqRecvTime c.body atClient atServer ↔
      ∀ b ∈ c.body.take 24, b = 0 := by
  obtain ⟨client, server, clientLog, serverLog, rpcId, sent, behind, hnonneg, hclient, hserver,
    ⟨e, hsend, rfl⟩, e', hrecv⟩ := h
  obtain ⟨-, f, hdata, -, hsent, rfl⟩ :=
    hsend.of_wp (wp_rpcSendReq_logged hclient hnonneg hbody rpcId)
  rw [show e.sent = f.toBytes from hsent] at hrecv
  obtain ⟨-, now, rfl⟩ := hrecv.of_wp (wp_receiveAndLog hserver)
  have hclear : f.header.clearReqRecvTime = (f.reqReceived now).header.clearReqRecvTime := rfl
  have hrecord : Octets.fit 24 (f.reqReceived now).data = .fit 24 c.body := by rw [← hdata]; rfl
  rw [List.nil_append, Network.sameRecord_iff hclear hrecord, ← fit_eq_fit_nil_iff]
  exact eq_comm

/-- The two ends log one record of a response. -/
theorem LoggedResponse.sameRecord {c : RespCall} {atServer atClient : Bytes}
    (h : LoggedResponse c atServer atClient) (hbody : c.body.length < 2 ^ 32) :
    SameRecord RPCHeader.clearResRecvTime c.body atServer atClient := by
  obtain ⟨server, client, serverLog, clientLog, sent, behind, hnonneg, hserver, hclient,
    ⟨e, hsend, rfl⟩, e', hrecv⟩ := h
  obtain ⟨-, f, hdata, hsent, rfl⟩ := hsend.of_wp (wp_rpcSendResp_logged hserver hnonneg hbody)
  rw [show e.sent = f.toBytes from hsent] at hrecv
  obtain ⟨-, now, rfl⟩ := hrecv.of_wp (wp_receiveAndLog hclient)
  have hclear : f.header.clearResRecvTime = (f.resReceived now).header.clearResRecvTime := rfl
  have hrecord : Octets.fit 24 (f.resReceived now).data = .fit 24 c.body := by rw [← hdata]; rfl
  rw [List.nil_append, Network.sameRecord_iff hclear hrecord]

/-- Any frame may be received and logged. -/
theorem exists_receivesAndLogs (stamp : Frame → UInt64 → Frame) (f : Frame) :
    ∃ logged, ReceivesAndLogs ⟨5, 0, 0, 0, 0⟩ 4 (recvStamped ⟨5, 0, 0, 0, 0⟩ stamp)
      (f.toBytes ++ []) logged := by
  obtain ⟨r, ⟨e, logged⟩, hexec, rfl, -⟩ :=
    (@wp_receiveAndLog ⟨5, 0, 0, 0, 0⟩ 4 (by decide) stamp f []).exists_exec
      (Env.ghost_total (endpointEnv_total _ _ _))
  exact ⟨logged, e, hexec⟩

/-- Any request may be sent, received and logged. -/
theorem exists_loggedRequest (c : ReqCall) (hbody : c.body.length < 2 ^ 32) :
    ∃ atClient atServer, LoggedRequest c atClient atServer := by
  obtain ⟨r, ⟨e, atClient⟩, hsend, rfl, f, -, -, hsent, -⟩ :=
    (@wp_rpcSendReq_logged ⟨5, 0, 0, 0, 0⟩ 4 (.fresh ∅) [] (by decide) (by decide) c hbody
      0).exists_exec (Env.ghost_total (endpointEnv_total _ _ _))
  obtain ⟨atServer, hrecv⟩ := exists_receivesAndLogs .reqReceived f
  rw [← show e.sent = f.toBytes from hsent] at hrecv
  exact ⟨atClient, atServer, _, _, 4, 4, 0, e.sent, [], by decide, by decide, by decide,
    ⟨e, hsend, rfl⟩, hrecv⟩

/-- Any response may be sent, received and logged. -/
theorem exists_loggedResponse (c : RespCall) (hbody : c.body.length < 2 ^ 32) :
    ∃ atServer atClient, LoggedResponse c atServer atClient := by
  obtain ⟨r, ⟨e, atServer⟩, hsend, rfl, f, -, hsent, -⟩ :=
    (@wp_rpcSendResp_logged ⟨5, 0, 0, 0, 0⟩ 4 (.fresh ∅) [] (by decide) (by decide) c
      hbody).exists_exec (Env.ghost_total (endpointEnv_total _ _ _))
  obtain ⟨atClient, hrecv⟩ := exists_receivesAndLogs .resReceived f
  rw [← show e.sent = f.toBytes from hsent] at hrecv
  exact ⟨atServer, atClient, _, _, 4, 4, e.sent, [], by decide, by decide, by decide,
    ⟨e, hsend, rfl⟩, hrecv⟩

/-- The two ends log the same of a request exactly if the part of its body that is logged is all
zeros, and the same of every response. -/
theorem both_log_same_iff (request : ReqCall) (response : RespCall)
    (hrequest : request.body.length < 2 ^ 32) (hresponse : response.body.length < 2 ^ 32) :
    (∀ atClient atServer, LoggedRequest request atClient atServer →
      (SameRecord RPCHeader.clearReqRecvTime request.body atClient atServer ↔
        ∀ b ∈ request.body.take 24, b = 0)) ∧
    ∀ atServer atClient, LoggedResponse response atServer atClient →
      SameRecord RPCHeader.clearResRecvTime response.body atServer atClient := by
  constructor
  · intro atClient atServer h
    exact h.sameRecord_iff hrequest
  · intro atServer atClient h
    exact h.sameRecord hresponse

/-- A request whose body is one byte that is not zero, and a response with that body. -/
theorem both_log_same_byte :
    let method : CString := ⟨ascii "ping", by decide⟩
    let request := Frame.request (ascii "ping") [107] (by decide)
    (∃ atClient atServer, LoggedRequest ⟨[107], 0, method⟩ atClient atServer ∧
      ¬SameRecord RPCHeader.clearReqRecvTime [107] atClient atServer) ∧
    ∃ atServer atClient, LoggedResponse ⟨request, [107], .Ok⟩ atServer atClient ∧
      SameRecord RPCHeader.clearResRecvTime [107] atServer atClient := by
  intro method request
  obtain ⟨atClient, atServer, h⟩ := exists_loggedRequest ⟨[107], 0, method⟩ (by decide)
  obtain ⟨atServer', atClient', h'⟩ := exists_loggedResponse ⟨request, [107], .Ok⟩ (by decide)
  have hboth := both_log_same_iff ⟨[107], 0, method⟩ ⟨request, [107], .Ok⟩ (by decide) (by decide)
  constructor
  · refine ⟨atClient, atServer, h, fun hsame => ?_⟩
    exact absurd ((hboth.1 _ _ h).mp hsame) (by decide)
  · exact ⟨atServer', atClient', h', hboth.2 _ _ h'⟩

/-- The client logs zeros for a body of one byte, and the server logs the byte. -/
theorem logs_differ : ∃ (c : ReqCall) (atClient atServer : Bytes), c.body = [107] ∧
    LoggedRequest c atClient atServer ∧
    ¬SameRecord RPCHeader.clearReqRecvTime c.body atClient atServer := by
  obtain ⟨atClient, atServer, h⟩ :=
    exists_loggedRequest ⟨[107], 0, ⟨ascii "ping", by decide⟩⟩ (by decide)
  refine ⟨_, atClient, atServer, rfl, h, fun hsame => ?_⟩
  exact absurd ((h.sameRecord_iff (by decide)).mp hsame) (by decide)

end Agreement

end SoftwareDynamics.Network

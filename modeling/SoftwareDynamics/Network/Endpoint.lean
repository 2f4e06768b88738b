import SoftwareDynamics.Network.Service

/-! One end of a connection: the bytes that it has got and sent, where every operation succeeds and
every `write` is complete, while a `read` may deliver any part of what has arrived. -/

namespace SoftwareDynamics.Network

open ProofKit Prog

section Model

/-- What one end of a connection has seen: the bytes it has got and sent, the readings of its clock
in reverse order, whether the stream to it has ended, and the store. -/
structure Endpoint (κ : Type) where
  got : Bytes
  sent : Bytes
  clock : List UInt64
  ended : Bool
  store : κ

namespace Endpoint

variable {κ : Type}

def fresh (store : κ) : Endpoint κ := ⟨[], [], [], false, store⟩

/-- A `read` that delivers no bytes has met the end of the stream. -/
def receive (e : Endpoint κ) (chunk : Bytes) : Endpoint κ :=
  { e with got := e.got ++ chunk, ended := e.ended || chunk.isEmpty }

def send (e : Endpoint κ) (buf : Bytes) : Endpoint κ := { e with sent := e.sent ++ buf }

@[simp] theorem send_nil (e : Endpoint κ) : e.send [] = e := by simp [send]

def look (e : Endpoint κ) (now : UInt64) : Endpoint κ := { e with clock := now :: e.clock }

end Endpoint

/-- The end `sock` of a connection.  What may arrive next depends on what has been got. -/
def endpointEnv {κ : Type} (sock logFd : Fd) (ops : StoreOps κ)
    (arrives : Bytes → Bytes → Prop) : Env SysOp SysOp.Result (Endpoint κ) where
  allows e op :=
    match op with
    | .read fd count => fd = sock ∧ 0 < count ∧ ∃ chunk, arrives e.got chunk ∧ chunk.length ≤ count
    | .write fd _ => fd = sock ∨ fd = logFd
    | .gettimeofday | .malloc _ | .indeterminate _ | .emplace _ _ | .find _ => True
    | _ => False
  act e op r e' :=
    match op, r with
    | .read fd _, some chunk => fd = sock ∧ arrives e.got chunk.1 ∧ e' = e.receive chunk.1
    | .write fd buf, r => r = some (Fin.last buf.length) ∧ e' = if fd = sock then e.send buf else e
    | .gettimeofday, some now => e' = e.look now.usec
    | .malloc _, r => r = true ∧ e' = e
    | .indeterminate _, _ => e' = e
    | .emplace key value, _ => ∃ store, ops.emplace e.store key value store ∧ e' = { e with store }
    | .find key, r => ∃ store, ops.find e.store key r store ∧ e' = { e with store }
    | _, _ => False

/-- Anything may arrive. -/
def anything : Bytes → Bytes → Prop := fun _ _ => True

end Model

section Rules

variable {κ : Type} {ops : StoreOps κ} {connection : Connection} {logFd : Fd}
  {I : Endpoint κ → Prop} {e : Endpoint κ}

/-- An end of a connection at which anything may arrive, and which watches an invariant. -/
def watched (connection : Connection) (logFd : Fd) (ops : StoreOps κ) (I : Endpoint κ → Prop) :
    Env SysOp SysOp.Result (Endpoint κ) :=
  (endpointEnv connection.sockFd logFd ops anything).watch I

theorem wp_nowUsec {Q : Option UInt64 → Endpoint κ → Prop} (hI : I e)
    (h : ∀ now, Q (some now) (e.look now)) :
    wp (watched connection logFd ops I) nowUsec Q e := by
  refine ⟨⟨hI, trivial⟩, fun r e' hr => ?_⟩
  cases r with
  | none => exact hr.elim
  | some now =>
    obtain rfl : e' = e.look now.usec := hr
    exact h now.usec

theorem wp_ilog2 {x : UInt32} {Q : UInt8 → Endpoint κ → Prop} (hI : I e) (h : ∀ y, Q y e) :
    wp (watched connection logFd ops I) (ilog2 x) Q e := by
  unfold ilog2
  split_ifs
  · rw [wp_map]
    refine ⟨⟨hI, trivial⟩, fun r e' hr => ?_⟩
    obtain rfl : e' = e := hr
    exact h _
  · exact h _

/-- What is written to the log is not sent. -/
theorem wp_log {message : RPCMessage} {Q : Option Unit → Endpoint κ → Prop}
    (hlog : logFd ≠ connection.sockFd) (hI : I e) (h : Q (some ()) e) :
    wp (watched connection logFd ops I) (log logFd message) Q e := by
  have write {buf : Bytes} {Q : Option (Fin (buf.length + 1)) → Endpoint κ → Prop}
      (hQ : Q (some (Fin.last _)) e) :
      wp (watched connection logFd ops I) (sys (.write logFd buf)) Q e := by
    refine ⟨⟨hI, .inr rfl⟩, fun r e' hr => ?_⟩
    obtain ⟨rfl, rfl⟩ := hr
    rwa [if_neg hlog]
  rw [log, wp_bind]
  refine write ?_
  rw [Option.isNone_some, if_neg Bool.false_ne_true, wp_bind]
  exact write h

/-- A message is sent as it is. -/
theorem wp_sendMessage {f : Frame} {body : Option Bytes} {Q : Option Unit → Endpoint κ → Prop}
    (hlog : logFd ≠ connection.sockFd) (hI : ∀ sent, sent <+: f.toBytes → I (e.send sent))
    (h : Q (some ()) (e.send f.toBytes)) :
    wp (watched connection logFd ops I)
      (sendMessage connection ⟨f.mark, f.header, body⟩ f.data logFd) Q e := by
  have write {e : Endpoint κ} {buf : Bytes} {Q : Option (Fin (buf.length + 1)) → Endpoint κ → Prop}
      (hI : I e) (hQ : Q (some (Fin.last _)) (e.send buf)) :
      wp (watched connection logFd ops I) (sys (.write connection.sockFd buf)) Q e := by
    refine ⟨⟨hI, .inl rfl⟩, fun r e' hr => ?_⟩
    obtain ⟨rfl, rfl⟩ := hr
    rwa [if_pos rfl]
  have hsend : (e.send (f.mark.toBytes ++ f.header.toBytes)).send f.data = e.send f.toBytes := by
    simp [Endpoint.send, Frame.toBytes]
  rw [sendMessage, wp_bind]
  refine write (by simpa using hI [] List.nil_prefix) ?_
  simp only [wroteAll_last, Bool.not_true, Bool.false_eq_true, if_false, wp_bind]
  refine write (hI _ (List.prefix_append _ _)) ?_
  rw [hsend]
  simp only [wroteAll_last, Bool.not_true, Bool.false_eq_true, if_false]
  split_ifs
  · rw [wp_bind]
    exact wp_log hlog (hI _ (List.prefix_refl _)) h
  · exact h

/-- A response is sent that is built from its request. -/
theorem wp_rpcSendResp {request : Frame} {body : Bytes} (hbody : body.length < 2 ^ 32)
    {status : RpcStatus} {Q : Option Unit → Endpoint κ → Prop} (hlog : logFd ≠ connection.sockFd)
    (hI : I e) (hsend : ∀ now lenLog sent,
      sent <+: (request.response body hbody status now lenLog).toBytes → I ((e.look now).send sent))
    (h : ∀ now lenLog,
      Q (some ()) ((e.look now).send (request.response body hbody status now lenLog).toBytes)) :
    wp (watched connection logFd ops I)
      (rpcSendResp connection request.message body status logFd) Q e := by
  rw [rpcSendResp, wp_bind]
  refine wp_nowUsec hI fun now => ?_
  dsimp only
  rw [wp_bind]
  refine wp_ilog2 (by simpa using hsend now 0 [] List.nil_prefix) fun lenLog => ?_
  exact wp_sendMessage (f := request.response body hbody status now lenLog) hlog
    (hsend now lenLog) (h now lenLog)

/-- A receiver takes the frame that has arrived, or fails where there is none. -/
theorem wp_recvMessage {Q : Option Frame → Endpoint κ → Prop}
    (hI : ∀ got, I { e with got := e.got ++ got })
    (ended : ∀ got, Frame.first got = none → Q none { e with got := e.got ++ got, ended := true })
    (reject : ∀ got, (∀ rest, Frame.first (got ++ rest) = none) →
      Q none { e with got := e.got ++ got })
    (accept : ∀ f : Frame, Q (some f) { e with got := e.got ++ f.toBytes }) :
    wp (watched connection logFd ops I) (recvMessage connection) Q e := by
  refine Receives.wp_recvMessage (I := fun got e' => e' = { e with got := e.got ++ got })
    ⟨fun got count e' hfirst hcount he' => ?_, fun got n e' he' => ?_, fun got e' hnone he' => ?_,
      fun f e' he' => ?_⟩ (by simp)
  · refine ⟨⟨he' ▸ hI got, rfl, hcount, [], trivial, Nat.zero_le _⟩, fun r e'' hr => ?_⟩
    cases r with
    | none => exact hr.elim
    | some chunk =>
      obtain rfl : e'' = e'.receive chunk.1 := hr.2.2
      obtain ⟨chunk, hlen⟩ := chunk
      subst he'
      refine ⟨fun hempty => ?_, fun hne => ?_⟩
      · obtain rfl : chunk = [] := hempty
        simpa [Endpoint.receive] using ended got hfirst
      · have hchunk : chunk.isEmpty = false := by simpa [delivered] using hne
        simp [Endpoint.receive, delivered, hchunk]
  · refine ⟨⟨he' ▸ hI got, trivial⟩, fun r e'' hr => ?_⟩
    obtain ⟨rfl, rfl⟩ := hr
    exact ⟨he', nofun⟩
  · exact he' ▸ reject got hnone
  · exact he' ▸ accept f

/-- A request is sent that is built from what the caller asks for, where an invariant is watched. -/
theorem wp_rpcSendReq_watched {body : Bytes} (hbody : body.length < 2 ^ 32)
    {parentRpc rpcId : UInt32} {method : CString} {Q : Option Unit × UInt32 → Endpoint κ → Prop}
    (hlog : logFd ≠ connection.sockFd) (hI : I e) (hlook : ∀ now, I (e.look now))
    (hsend : ∀ f : Frame, f.Requests connection body parentRpc method rpcId →
      ∀ now sent, sent <+: f.toBytes → I ((e.look now).send sent))
    (h : ∀ f : Frame, f.Requests connection body parentRpc method rpcId →
      Q (some (), rpcId + 1) ((e.look f.header.reqSendTimeUs).send f.toBytes)) :
    wp (watched connection logFd ops I)
      (rpcSendReq connection body parentRpc method logFd rpcId) Q e := by
  have look (n : Nat) (R : Octets n → Endpoint κ → Prop) (hR : ∀ bs, R bs e) :
      wp (watched connection logFd ops I) (sys (.indeterminate n)) R e := by
    refine ⟨⟨hI, trivial⟩, fun bs e' he => ?_⟩
    obtain rfl : e' = e := he
    exact hR bs
  refine wp_rpcSendReq_looks look fun checksum resLenLog pad => ?_
  refine wp_nowUsec hI fun now => ?_
  dsimp only
  refine wp_ilog2 (hlook now) fun reqLenLog => ?_
  have hlen : (UInt32.ofNat body.length).toNat = body.length := UInt32.toNat_ofNat_of_lt' hbody
  refine wp_sendMessage (f := {
    mark := ⟨MARK_SIGNATURE, .ofNat headerSize, .ofNat body.length, ofLe32 checksum.1⟩
    header := _
    data := body
    headerLen_eq := rfl
    dataLen_eq := hlen }) hlog (hsend _ ⟨rfl, rfl, rfl⟩ now) ?_
  exact h _ ⟨rfl, rfl, rfl⟩

/-- A request is sent that is built from what the caller asks for. -/
theorem wp_rpcSendReq {body : Bytes} (hbody : body.length < 2 ^ 32) {parentRpc rpcId : UInt32}
    {method : CString} {Q : Option Unit × UInt32 → Endpoint κ → Prop}
    (hlog : logFd ≠ connection.sockFd) (hI : ∀ e, I e)
    (h : ∀ f : Frame, f.Requests connection body parentRpc method rpcId →
      Q (some (), rpcId + 1) ((e.look f.header.reqSendTimeUs).send f.toBytes)) :
    wp (watched connection logFd ops I)
      (rpcSendReq connection body parentRpc method logFd rpcId) Q e :=
  wp_rpcSendReq_watched hbody hlog (hI _) (fun _ => hI _) (fun _ _ _ _ _ => hI _) h

/-- Of a request with a body that cannot be read, only the mark and the header are sent. -/
theorem wp_rpcSendReq_null {bodyLen : Nat} (hbody : bodyLen + 1 < 2 ^ 32)
    {parentRpc rpcId : UInt32} {method : CString} {Q : Option Unit × UInt32 → Endpoint κ → Prop}
    (hI : ∀ e, I e)
    (h : ∀ (sent : Bytes) now, Frame.first sent = none →
      Q (none, rpcId + 1) ((e.look now).send sent)) :
    wp (watched connection logFd ops I)
      (rpcSendReq connection (.null bodyLen) parentRpc method logFd rpcId) Q e := by
  have look (n : Nat) (R : Octets n → Endpoint κ → Prop) (hR : ∀ bs, R bs e) :
      wp (watched connection logFd ops I) (sys (.indeterminate n)) R e := by
    refine ⟨⟨hI e, trivial⟩, fun bs e' he => ?_⟩
    obtain rfl : e' = e := he
    exact hR bs
  refine wp_rpcSendReq_looks look fun checksum resLenLog pad => ?_
  refine wp_nowUsec (hI e) fun now => ?_
  dsimp only
  refine wp_ilog2 (hI _) fun reqLenLog => ?_
  rw [sendRequest, wp_bind]
  refine ⟨⟨hI _, .inl rfl⟩, fun r e' hr => ?_⟩
  obtain ⟨rfl, rfl⟩ := hr
  rw [if_pos rfl]
  refine h _ now (Frame.first_eq_none_of_short ?_)
  rw [RPCHeader.toBytes_length, requestMessage, Body.length, UInt32.toNat_ofNat_of_lt' hbody]
  exact Nat.lt_add_of_pos_right (Nat.zero_lt_succ _)

/-- Both receivers also look at the clock. -/
theorem wp_recvStamped {stamp : Frame → UInt64 → Frame} {Q : Option Frame → Endpoint κ → Prop}
    (hI : ∀ got, I { e with got := e.got ++ got })
    (ended : ∀ got, Frame.first got = none → Q none { e with got := e.got ++ got, ended := true })
    (reject : ∀ got, (∀ rest, Frame.first (got ++ rest) = none) →
      Q none { e with got := e.got ++ got })
    (accept : ∀ (f : Frame) now, Q (some (stamp f now))
      { e with got := e.got ++ f.toBytes, clock := now :: e.clock }) :
    wp (watched connection logFd ops I) (recvStamped connection stamp) Q e := by
  rw [recvStamped, wp_bind]
  refine wp_recvMessage hI ended reject fun f => ?_
  dsimp only
  rw [wp_bind]
  exact wp_nowUsec (hI _) fun now => accept f now

/-- What a receiver gets where anything may arrive. -/
inductive Reception (stamp : Frame → UInt64 → Frame) : Option Frame → Endpoint κ → Prop
  | ended {e : Endpoint κ} : e.ended → Frame.first e.got = none → Reception stamp none e
  | rejected {e : Endpoint κ} : (∀ rest, Frame.first (e.got ++ rest) = none) →
      Reception stamp none e
  | accepted {e : Endpoint κ} {f : Frame} {now : UInt64} : e.ended = false → e.got = f.toBytes →
      e.sent = [] → Reception stamp (some (stamp f now)) e

theorem wp_reception {stamp : Frame → UInt64 → Frame} {k : κ} :
    wp (watched connection logFd ops fun _ => True) (recvStamped connection stamp)
      (Reception stamp) (.fresh k) :=
  wp_recvStamped (fun _ => trivial) (fun _ hfirst => .ended rfl hfirst)
    (fun _ hnone => .rejected hnone) fun _ _ => .accepted rfl rfl rfl

end Rules

section Serving

variable {κ : Type}

/-- One round of serving a connection, so far: it has not answered yet, or it has got one request
and sent some of the response to it. -/
def Round (ops : StoreOps κ) (k : κ) (e : Endpoint κ) : Prop :=
  (e.sent = [] ∧ e.store = k) ∨ ∃ request response : Frame, e.got = request.toBytes ∧
    e.sent <+: response.toBytes ∧
    Handles ops k request response.header.status response.data e.store ∧
    response.Answers request ∧ Timed e.clock response

/-- How a round of serving a connection ends. -/
inductive Outcome (ops : StoreOps κ) (k : κ) : Option RpcAction → Endpoint κ → Prop
  | ended {e : Endpoint κ} : e.sent = [] → e.store = k → e.ended → Frame.first e.got = none →
      Outcome ops k (some .CONTINUE) e
  | rejected {e : Endpoint κ} : e.sent = [] → e.store = k →
      (∀ rest, Frame.first (e.got ++ rest) = none) → Outcome ops k (some .CONTINUE) e
  | unknown {e : Endpoint κ} {request : Frame} : e.sent = [] → e.store = k →
      e.got = request.toBytes → request.methodName ∉ methods →
      Outcome ops k (some .CONTINUE) e
  | answered {e : Endpoint κ} {request response : Frame} : e.ended = false →
      e.got = request.toBytes → e.sent = response.toBytes →
      Handles ops k request response.header.status response.data e.store →
      response.Answers request → Timed e.clock response → Outcome ops k request.action e

variable {ops : StoreOps κ} {k : κ} {connection : Connection} {logFd : Fd}

theorem Round.fresh : Round ops k (.fresh k) := .inl ⟨rfl, rfl⟩

theorem Outcome.round {action : Option RpcAction} {e : Endpoint κ} (h : Outcome ops k action e) :
    Round ops k e := by
  cases h with
  | ended hsent hstore => exact .inl ⟨hsent, hstore⟩
  | rejected hsent hstore => exact .inl ⟨hsent, hstore⟩
  | unknown hsent hstore => exact .inl ⟨hsent, hstore⟩
  | @answered _ request response _ hgot hsent hhandles hanswers htimed =>
    exact .inr ⟨request, response, hgot, hsent ▸ List.prefix_refl _, hhandles, hanswers, htimed⟩

/-- A request that is handled as it should be gets its response. -/
theorem wp_respond {request : Frame} {now : UInt64} {status : RpcStatus} {body : Bytes}
    {e : Endpoint κ} {Q : Unit → Endpoint κ → Prop} (hlog : logFd ≠ connection.sockFd)
    (hended : e.ended = false) (hgot : e.got = request.toBytes) (hsent : e.sent = [])
    (hclock : e.clock = [now]) (hhandles : Handles ops k request status body e.store)
    (h : ∀ e (response : Frame), e.ended = false → e.got = request.toBytes →
      e.sent = response.toBytes →
      Handles ops k request response.header.status response.data e.store →
      response.Answers request → Timed e.clock response → Q () e) :
    wp (watched connection logFd ops (Round ops k))
      (respond connection (request.reqReceived now) body status logFd) Q e := by
  have hbody := hhandles.length_lt
  have timed (t : UInt64) (lenLog : UInt8) : Timed (t :: e.clock)
      ((request.reqReceived now).response body hbody status t lenLog) := by
    intro hsorted
    rw [hclock] at hsorted
    exact List.rel_of_pairwise_cons hsorted List.mem_cons_self
  rw [respond, wp_bind]
  refine wp_rpcSendResp hbody hlog ?_ (fun t lenLog sent hpre => ?_) fun t lenLog => ?_
  · refine .inr ⟨request, (request.reqReceived now).response body hbody status now 0, hgot, ?_,
      hhandles, ⟨rfl, rfl⟩, fun _ => UInt64.le_refl now⟩
    rw [hsent]
    exact List.nil_prefix
  · refine .inr ⟨request, (request.reqReceived now).response body hbody status t lenLog, hgot, ?_,
      hhandles, ⟨rfl, rfl⟩, timed t lenLog⟩
    simpa [Endpoint.send, Endpoint.look, hsent] using hpre
  · exact h _ ((request.reqReceived now).response body hbody status t lenLog) hended hgot
      (by simp [Endpoint.send, Endpoint.look, hsent]) hhandles ⟨rfl, rfl⟩ (timed t lenLog)

theorem keeps_received (request : Frame) (now : UInt64) :
    Keeps (watched connection logFd ops (Round ops k)) ops k fun k' e =>
      e.ended = false ∧ e.got = request.toBytes ∧ e.sent = [] ∧ e.clock = [now] ∧ e.store = k' where
  indeterminate n e he := by
    refine ⟨⟨.inl ⟨he.2.2.1, he.2.2.2.2⟩, trivial⟩, fun r e' hr => ?_⟩
    obtain rfl : e' = e := hr
    exact he
  emplace key value e he := by
    obtain ⟨hended, hgot, hsent, hclock, rfl⟩ := he
    refine ⟨⟨.inl ⟨hsent, rfl⟩, trivial⟩, fun r e' hr => ?_⟩
    obtain ⟨store, hstore, rfl⟩ := hr
    exact ⟨store, hstore, hended, hgot, hsent, hclock, rfl⟩
  find key e he := by
    obtain ⟨hended, hgot, hsent, hclock, rfl⟩ := he
    refine ⟨⟨.inl ⟨hsent, rfl⟩, trivial⟩, fun r e' hr => ?_⟩
    obtain ⟨store, hstore, rfl⟩ := hr
    exact ⟨store, hstore, hended, hgot, hsent, hclock, rfl⟩

/-- A round of serving a connection answers one request, or meets the end of what it can serve. -/
theorem wp_serveMessage (hlog : logFd ≠ connection.sockFd) :
    wp (watched connection logFd ops (Round ops k)) (serveMessage connection logFd)
      (Outcome ops k) (.fresh k) := by
  rw [serveMessage, wp_bind]
  refine wp_recvStamped (fun got => .inl ⟨rfl, rfl⟩) (fun got hfirst => .ended rfl rfl rfl hfirst)
    (fun got hnone => .rejected rfl rfl hnone) fun request now => ?_
  dsimp only
  rw [wp_bind]
  refine wp_log hlog (.inl ⟨rfl, rfl⟩) ?_
  refine (keeps_received request now).wp_processCommand ?_ (fun status body k' e hhandles he => ?_)
    fun hunknown => ?_
  · exact ⟨rfl, rfl, rfl, rfl, rfl⟩
  · obtain ⟨hended, hgot, hsent, hclock, rfl⟩ := he
    exact wp_respond hlog hended hgot hsent hclock hhandles.of_reqReceived
      fun e response => .answered
  · exact .unknown rfl rfl rfl hunknown

end Serving

end SoftwareDynamics.Network

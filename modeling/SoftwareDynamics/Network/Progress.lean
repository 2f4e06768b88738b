import SoftwareDynamics.Network.Calls
import SoftwareDynamics.Network.Stream

/-! What the programs of both sides may do in a net, as long as what they wait for has been sent. -/

namespace SoftwareDynamics.Network

open ProofKit Prog

section Follow

/-- A net after one end of connection `n` has seen more. -/
def Net.after (s : Net) (side : Side) (n : Nat) (e : Endpoint Keystore) : Net where
  hosts := Function.update s.hosts side ((s.hosts side).after n e)
  keystore := match side with
    | .client => s.keystore
    | .server => e.store

variable {side : Side} {s : Net} {connection : Connection} {logFd : Fd} {n : Nat} {stream : Bytes}

/-- What an operation does at one end of a connection, it does in the net. -/
theorem Net.after_act {e e' : Endpoint Keystore} {op : SysOp} {r : op.Result}
    (hact : ((s.hosts side).after n e).act op r ((s.hosts side).after n e'))
    (hgets : ((s.hosts side).after n e).Gets (s.hosts side.other) op r)
    (hstore : StoreOps.alone.act e.store op r e'.store) :
    (netEnv side).act (s.after side n e) op r (s.after side n e') := by
  refine ⟨(s.hosts side).after n e', (s.after side n e').keystore, ?_, ?_, ?_, ?_⟩
  · simpa [Net.after] using hact
  · simpa [Net.after, Function.update_of_ne side.other_ne] using hgets
  · cases side with
    | client => rfl
    | server => exact hstore
  · simp [Net.after]

/-- The end of a stream is met for good. -/
theorem streamEnv_ended {e e' : Endpoint Keystore} {op : SysOp} {r : op.Result}
    (hact : (streamEnv connection logFd stream).act e op r e') (h : e.ended) : e'.ended := by
  cases op with
  | read fd count =>
    rcases r with _ | chunk
    · exact hact.elim
    obtain ⟨-, -, rfl⟩ := hact
    simp [Endpoint.receive, h]
  | write fd buf =>
    obtain ⟨-, rfl⟩ := hact
    split_ifs <;> exact h
  | gettimeofday =>
    rcases r with _ | now
    · exact hact.elim
    obtain rfl : e' = e.look now.usec := hact
    exact h
  | malloc size =>
    obtain ⟨-, rfl⟩ := hact
    exact h
  | indeterminate size =>
    obtain rfl : e' = e := hact
    exact h
  | emplace key value =>
    obtain ⟨store, -, rfl⟩ := hact
    exact h
  | find key =>
    obtain ⟨store, -, rfl⟩ := hact
    exact h
  | _ => exact hact.elim

/-- What may happen at one end of a connection to which a stream arrives may happen in a net in
which the other end has sent this stream, and closed the connection if its end is met. -/
theorem net_follows (hsock : (s.hosts side).files connection.sockFd = some (.connection n))
    (hlog : (s.hosts side).files logFd = some .log)
    (hstream : (s.hosts side).got n ++ stream <+: (s.hosts side.other).sent n) :
    (streamEnv connection logFd stream).Follows (netEnv side)
      (fun e s' => e.got <+: stream ∧ s' = s.after side n e)
      fun e => e.ended → (s.hosts side.other).closed n ∧
        (s.hosts side).got n ++ stream = (s.hosts side.other).sent n where
  back e op r e' hact hok := fun hended => hok (streamEnv_ended hact hended)
  step e s' op r e' hs hallows hact hok := by
    obtain ⟨hgot, rfl⟩ := hs
    have hfiles : ((s.hosts side).after n e).files = (s.hosts side).files := rfl
    cases op with
    | read fd count =>
      rcases r with _ | ⟨chunk, hlen⟩
      · exact hact.elim
      obtain ⟨rfl, harrives, rfl⟩ := hact
      refine ⟨_, Net.after_act ⟨n, hsock, (Host.after_receive _ _ _ _).symm⟩ ?_ rfl,
        harrives.append_prefix hgot, rfl⟩
      intro m hm
      rw [hfiles, hsock] at hm
      cases hm
      have hgot' : ((s.hosts side).after n e).got n = (s.hosts side).got n ++ e.got := by
        simp [Host.after]
      dsimp only
      rw [hgot']
      split_ifs with hempty
      · have heq : e.got = stream := (hempty ▸ harrives : Arrives stream e.got []).eq_of_nil
        rw [heq]
        exact hok (by simp [Endpoint.receive, hempty])
      · rw [List.append_assoc]
        exact ((List.prefix_append_right_inj _).mpr (harrives.append_prefix hgot)).trans hstream
    | write fd buf =>
      obtain ⟨rfl, rfl⟩ := hact
      refine ⟨_, Net.after_act ⟨rfl, ?_⟩ trivial ?_, ?_, rfl⟩
      · rw [hfiles]
        split_ifs with hfd
        · exact .inr ⟨n, hfd ▸ hsock, (Host.after_send _ _ _ _).symm⟩
        · exact .inl ⟨(hallows.resolve_left hfd) ▸ hlog, rfl⟩
      · split_ifs <;> rfl
      · split_ifs <;> exact hgot
    | gettimeofday =>
      rcases r with _ | now
      · exact hact.elim
      obtain rfl : e' = e.look now.usec := hact
      exact ⟨_, Net.after_act (Host.after_look _ _ _ _).symm trivial rfl, hgot, rfl⟩
    | malloc size =>
      obtain ⟨rfl, rfl⟩ := hact
      exact ⟨_, Net.after_act ⟨rfl, rfl⟩ trivial rfl, hgot, rfl⟩
    | indeterminate size =>
      obtain rfl : e' = e := hact
      exact ⟨_, Net.after_act rfl trivial rfl, hgot, rfl⟩
    | emplace key value =>
      obtain ⟨store, hstore, rfl⟩ := hact
      exact ⟨s.after side n { e with store }, Net.after_act rfl trivial hstore, hgot, rfl⟩
    | find key =>
      obtain ⟨store, hstore, rfl⟩ := hact
      exact ⟨s.after side n { e with store }, Net.after_act rfl trivial hstore, hgot, rfl⟩
    | _ => exact hact.elim

@[simp] theorem Endpoint.fresh_after {κ : Type} (k : κ) (e : Endpoint κ) :
    (Endpoint.fresh k).after e = e := by simp [Endpoint.after, fresh]

@[simp] theorem Net.after_fresh (s : Net) (side : Side) (n : Nat) :
    s.after side n (.fresh s.keystore) = s := by
  simp only [after, Host.after_fresh, Function.update_eq_self]
  cases side <;> rfl

/-- A program that is done before it meets the end of the stream, or meets it where the other side
has closed the connection, has an execution in the net. -/
theorem exec_connection {α : Type} {p : Sys α} {Q : α → Endpoint Keystore → Prop}
    {I : Endpoint Keystore → Prop}
    (hsock : (s.hosts side).files connection.sockFd = some (.connection n))
    (hlog : (s.hosts side).files logFd = some .log)
    (hstream : (s.hosts side).got n ++ stream <+: (s.hosts side.other).sent n)
    (hp : wp (watched connection logFd .alone I) p Q (.fresh s.keystore))
    (hend : ∀ a e, Q a e → e.got <+: stream → (e.ended → e.got = stream) → e.ended →
      (s.hosts side.other).closed n ∧
        (s.hosts side).got n ++ stream = (s.hosts side.other).sent n) :
    ∃ a e, Exec (netEnv side) p s a (s.after side n e) ∧ Q a e ∧ e.got <+: stream ∧
      (e.ended → e.got = stream) := by
  have hwp := @wp_stream stream _ _ _ (.fresh s.keystore) _ _ _ List.nil_prefix hp
  have along {a : α} {e : Endpoint Keystore}
      (h : ∃ t, Along stream (.fresh s.keystore) t e ∧ Q a t) :
      Q a e ∧ e.got <+: stream ∧ (e.ended → e.got = stream) := by
    obtain ⟨t, ⟨rfl, hgot, hended⟩, hQ⟩ := h
    rw [Endpoint.fresh_after]
    exact ⟨hQ, hgot, hended⟩
  obtain ⟨a, e, _, hexec, ⟨hgot, rfl⟩, h⟩ := (net_follows hsock hlog hstream).exists_exec
    (endpointEnv_total _ _ _) hwp
    (fun a e h => hend a e (along h).1 (along h).2.1 (along h).2.2)
    ⟨List.nil_prefix, (s.after_fresh side n).symm⟩
  exact ⟨a, e, hexec, along h⟩

end Follow

section Calls

variable {s : Net} {side : Side} {h : Host}

/-- A system call that is not about the keystore. -/
theorem exec_call {α : Type} {a : α} (op : SysOp) (r : op.Result) {k : op.Result → Sys α}
    {h' : Host} {s' : Net} (hact : h.act op r h') (hgets : h.Gets (s.hosts side.other) op r)
    (hstores : side.stores s.keystore op r s.keystore)
    (hrest : Exec (netEnv side) (k r) (s.set side h') a s') :
    Exec (netEnv side) (sys op >>= k) (s.set side h) a s' := by
  have hnet : (netEnv side).act (s.set side h) op r (s.set side h') :=
    ⟨h', s.keystore, by simpa using hact, by simpa [side.other_ne] using hgets, hstores,
      by simp [Net.set]⟩
  exact .call hnet hrest

theorem exec_listen_start {port : Int32} (h3 : h.files 3 = none) (h4 : h.files 4 = none) :
    Exec (netEnv .server) (listenCode port .start) (s.set .server h) (.accept 3 4)
      (s.set .server ((h.openFile 3 .socket).openFile 4 .log)) := by
  have hlisten : Exec (netEnv .server) (tcpListen (.ofInt port.toInt) SOCK_BACKLOG)
      (s.set .server h) (.ok 3) (s.set .server (h.openFile 3 .socket)) := by
    refine exec_call .socket (.ok 3) ⟨h3, rfl⟩ trivial rfl ?_
    refine exec_call (.bind 3 _) (.ok ()) ⟨by simp [Host.openFile], rfl⟩ trivial rfl ?_
    exact exec_call (.listen 3 _) (.ok ()) ⟨by simp [Host.openFile], rfl⟩ trivial rfl (.ret _ _)
  have h4 : (h.openFile 3 .socket).files 4 = none := by simpa [Host.openFile] using h4
  exact hlisten.bind (exec_call (.creat _) (some 4) ⟨h4, rfl⟩ trivial rfl (.ret _ _))

theorem exec_listen_accept {port : Int32} (h3 : h.files 3 = some .socket)
    (h5 : h.files 5 = none) (hconns : h.conns < (s.hosts .client).conns) :
    ∃ connection : Connection, connection.sockFd = 5 ∧
      Exec (netEnv .server) (listenCode port (.accept 3 4)) (s.set .server h)
        (.serve 3 4 connection) (s.set .server (h.connect 5)) := by
  have huninit : ∃ connection, Exec (netEnv .server) uninitConnection (s.set .server h) connection
      (s.set .server h) :=
    ⟨_, exec_call (.indeterminate 16) ⟨List.replicate 16 0, rfl⟩ rfl trivial rfl (.ret _ _)⟩
  have haccept (connection : Connection) : Exec (netEnv .server) (tcpAccept 3 connection)
      (s.set .server h) (.ok (), ⟨5, 0, 0, 0, 0⟩) (s.set .server (h.connect 5)) := by
    refine exec_call (.accept 3) (.ok (5, ⟨0, 0⟩, sockAddrLen)) ⟨rfl, h3, h5, rfl⟩ hconns rfl ?_
    dsimp only
    rw [if_neg (not_not_intro rfl)]
    refine exec_call (.getsockname 5) (.ok (⟨0, 0⟩, sockAddrLen)) ⟨rfl, rfl⟩ trivial rfl ?_
    dsimp only
    rw [if_neg (not_not_intro rfl)]
    exact .ret _ _
  obtain ⟨connection, huninit⟩ := huninit
  exact ⟨⟨5, 0, 0, 0, 0⟩, rfl, huninit.bind ((haccept connection).bind (.ret _ _))⟩

variable {stored : Bool} {args : Args}

theorem exec_client_start (h3 : h.files 3 = none) :
    Exec (netEnv .client) (clientCode stored args .start) (s.set .client h) (.connect 3 0 1)
      (s.set .client (h.openFile 3 .log)) :=
  exec_call (.creat clientLogFn) (some 3) ⟨h3, rfl⟩ trivial rfl (.ret _ _)

theorem exec_client_connect {nextRpcId : UInt32} (hconns : 0 < args.nConns.toNat)
    (h4 : h.files 4 = none) (hlisten : (s.hosts .server).files 3 = some .socket) :
    ∃ connection : Connection, connection.sockFd = 4 ∧
      Exec (netEnv .client) (clientCode stored args (.connect 3 0 nextRpcId)) (s.set .client h)
        (.request 3 0 nextRpcId connection 0)
        (s.set .client ((h.openFile 4 .socket).connect 4)) := by
  have hconnect : Exec (netEnv .client) (tcpConnect args.server args.port) (s.set .client h)
      (.ok ⟨4, 0, 0, 0, htons args.port⟩) (s.set .client ((h.openFile 4 .socket).connect 4)) := by
    refine exec_call .socket (.ok 4) ⟨h4, rfl⟩ trivial rfl ?_
    refine exec_call (.inetPton _) (.ok (some 0)) rfl trivial rfl ?_
    refine exec_call (.connect 4 _) (.ok ()) ⟨by simp [Host.openFile], rfl⟩ ⟨3, hlisten⟩ rfl ?_
    refine exec_call (.getsockname 4) (.ok (⟨0, 0⟩, sockAddrLen)) ⟨rfl, rfl⟩ trivial rfl ?_
    dsimp only
    rw [if_neg (not_not_intro rfl)]
    exact .ret _ _
  refine ⟨⟨4, 0, 0, 0, htons args.port⟩, rfl, ?_⟩
  rw [clientCode, if_pos hconns]
  exact hconnect.bind (.ret _ _)

end Calls

section Messages

variable {s : Net} {connection : Connection} {n : Nat} {stored : Bool} {args : Args} {j : Nat}

/-- The only frame that a stream which starts with one starts with is this one. -/
theorem Frame.eq_of_prefix {f g : Frame} (h : f.toBytes <+: g.toBytes) : f = g := by
  obtain ⟨rest, hrest⟩ := h
  exact (Frame.append_inj (hrest.trans (List.append_nil _).symm)).1

/-- The next part of a program that needs nothing from the other end of its connection. -/
theorem exec_client {α : Type} {p : Sys α} {Q : α → Endpoint Keystore → Prop}
    (hsock : (s.hosts .client).files connection.sockFd = some (.connection n))
    (hlog : (s.hosts .client).files 3 = some .log)
    (hgot : (s.hosts .client).got n <+: (s.hosts .server).sent n)
    (hp : wp (watched connection 3 .alone fun _ => True) p Q (.fresh s.keystore))
    (hend : ∀ a e, Q a e → e.ended = false) :
    ∃ a e, Exec (netEnv .client) p s a (s.after .client n e) ∧ Q a e := by
  obtain ⟨a, e, hexec, hQ, -⟩ := @exec_connection _ _ _ _ _ [] _ _ _ _ hsock hlog
    (by rwa [List.append_nil]) hp fun a e hQ _ _ hended => by
      rw [hend a e hQ] at hended
      cases hended
  exact ⟨a, e, hexec, hQ⟩

theorem exec_requestBody (hreadable : args.Readable stored j) (hfits : args.Fits j)
    (hsock : (s.hosts .client).files connection.sockFd = some (.connection n))
    (hlog : (s.hosts .client).files 3 = some .log)
    (hgot : (s.hosts .client).got n <+: (s.hosts .server).sent n) :
    ∃ body : Bytes, Exec (netEnv .client) (requestBody stored args j) s (some body) s ∧
      args.Body j body ∧ body.length < 2 ^ 32 := by
  have hwp : wp (watched connection 3 .alone fun _ => True) (requestBody stored args j)
      (fun r e => e = .fresh s.keystore ∧ ∃ body : Bytes, r = some (body : Body) ∧
        args.Body j body ∧ body.length < 2 ^ 32) (.fresh s.keystore) :=
    wp_requestBody_readable hreadable hfits ⟨⟨trivial, trivial⟩, fun _ _ hact => hact⟩
      fun body hbody hshort => ⟨rfl, body, rfl, hbody, hshort⟩
  obtain ⟨_, _, hexec, rfl, body, rfl, hbody, hshort⟩ := exec_client hsock hlog hgot hwp
    fun _ _ h => h.1 ▸ rfl
  rw [Net.after_fresh] at hexec
  exact ⟨body, hexec, hbody, hshort⟩

theorem exec_rpcSendReq {body : Bytes} {method : CString} {rpcId : UInt32}
    (hbody : body.length < 2 ^ 32) (hfd : 3 ≠ connection.sockFd)
    (hsock : (s.hosts .client).files connection.sockFd = some (.connection n))
    (hlog : (s.hosts .client).files 3 = some .log)
    (hgot : (s.hosts .client).got n <+: (s.hosts .server).sent n) :
    ∃ (request : Frame) (e : Endpoint Keystore),
      Exec (netEnv .client) (rpcSendReq connection body 0 method 3 rpcId) s (some (), rpcId + 1)
        (s.after .client n e) ∧
      request.Requests connection body 0 method rpcId ∧ e.got = [] ∧ e.sent = request.toBytes := by
  have hwp : wp (watched connection 3 .alone fun _ => True)
      (rpcSendReq connection body 0 method 3 rpcId)
      (fun r e => r = (some (), rpcId + 1) ∧ e.ended = false ∧ ∃ request : Frame,
        request.Requests connection body 0 method rpcId ∧ e.got = [] ∧ e.sent = request.toBytes)
      (.fresh s.keystore) :=
    wp_rpcSendReq hbody hfd (fun _ => trivial)
      fun request hrequest => ⟨rfl, rfl, request, hrequest, rfl, rfl⟩
  obtain ⟨_, e, hexec, rfl, -, request, hrequest, hgot, hsent⟩ := exec_client hsock hlog hgot hwp
    fun _ _ h => h.2.1
  exact ⟨request, e, hexec, hrequest, hgot, hsent⟩

/-- What starts no frame is not the start of a frame. -/
theorem Frame.not_prefix_of_none {f : Frame} {bytes : Bytes}
    (h : ∀ rest, Frame.first (bytes ++ rest) = none) : ¬ bytes <+: f.toBytes := by
  rintro ⟨rest, hrest⟩
  have hfirst := Frame.first_append f []
  rw [List.append_nil, ← hrest, h rest] at hfirst
  cases hfirst

theorem Frame.first_toBytes (f : Frame) : Frame.first f.toBytes = some (f, []) := by
  rw [← List.append_nil f.toBytes]
  exact Frame.first_append f []

/-- Where a request has arrived, it is answered. -/
theorem Outcome.eq_answered {κ : Type} {ops : StoreOps κ} {k : κ} {action : Option RpcAction}
    {e : Endpoint κ} {request : Frame} (h : Outcome ops k action e)
    (hgot : e.got <+: request.toBytes) (hended : e.ended → e.got = request.toBytes)
    (hknown : request.methodName ∈ methods) :
    ∃ response : Frame, action = request.action ∧ e.ended = false ∧ e.got = request.toBytes ∧
      e.sent = response.toBytes ∧
      Handles ops k request response.header.status response.data e.store ∧
      response.Answers request := by
  cases h with
  | ended _ _ hend hnone =>
    rw [hended hend, Frame.first_toBytes] at hnone
    cases hnone
  | rejected _ _ hnone => exact absurd hgot (Frame.not_prefix_of_none hnone)
  | @unknown _ request' _ _ hrequest hunknown =>
    obtain rfl : request' = request := Frame.eq_of_prefix (hrequest ▸ hgot)
    exact absurd hknown hunknown
  | @answered _ request' response hnot hrequest hsent hhandles hanswers =>
    obtain rfl : request' = request := Frame.eq_of_prefix (hrequest ▸ hgot)
    exact ⟨response, rfl, hnot, hrequest, hsent, hhandles, hanswers⟩

theorem exec_serveMessage {request : Frame} (hfd : 4 ≠ connection.sockFd)
    (hsock : (s.hosts .server).files connection.sockFd = some (.connection n))
    (hlog : (s.hosts .server).files 4 = some .log)
    (hstream : (s.hosts .client).sent n = (s.hosts .server).got n ++ request.toBytes)
    (hknown : request.methodName ∈ methods) :
    ∃ (response : Frame) (e : Endpoint Keystore),
      Exec (netEnv .server) (serveMessage connection 4) s request.action (s.after .server n e) ∧
      e.got = request.toBytes ∧ e.sent = response.toBytes ∧
      Handles .alone s.keystore request response.header.status response.data e.store ∧
      response.Answers request := by
  obtain ⟨action, e, hexec, houtcome, hgot, hall⟩ :=
    @exec_connection _ _ _ _ _ request.toBytes _ _ _ _ hsock hlog (hstream ▸ List.prefix_refl _)
      (wp_serveMessage hfd)
    fun action e houtcome hgot hall hended => by
      obtain ⟨response, -, hnot, -⟩ := houtcome.eq_answered hgot hall hknown
      simp [hnot] at hended
  obtain ⟨response, rfl, -, hgot, hsent, hhandles, hanswers⟩ :=
    houtcome.eq_answered hgot hall hknown
  exact ⟨response, e, hexec, hgot, hsent, hhandles, hanswers⟩

/-- Where nothing more arrives, nothing more is answered. -/
theorem Outcome.eq_stopped {κ : Type} {ops : StoreOps κ} {k : κ} {action : Option RpcAction}
    {e : Endpoint κ} (h : Outcome ops k action e) (hgot : e.got = []) :
    action = some .CONTINUE ∧ e.store = k := by
  cases h with
  | ended _ hstore => exact ⟨rfl, hstore⟩
  | rejected _ hstore => exact ⟨rfl, hstore⟩
  | unknown _ _ hrequest => exact absurd (hrequest.symm.trans hgot) (Frame.toBytes_ne_nil _)
  | answered _ hrequest => exact absurd (hrequest.symm.trans hgot) (Frame.toBytes_ne_nil _)

theorem exec_serveMessage_end (hfd : 4 ≠ connection.sockFd)
    (hsock : (s.hosts .server).files connection.sockFd = some (.connection n))
    (hlog : (s.hosts .server).files 4 = some .log)
    (hall : (s.hosts .server).got n = (s.hosts .client).sent n)
    (hclosed : (s.hosts .client).closed n) :
    ∃ e : Endpoint Keystore,
      Exec (netEnv .server) (serveMessage connection 4) s (some .CONTINUE) (s.after .server n e) ∧
      e.store = s.keystore := by
  have hstream : (s.hosts .server).got n ++ [] = (s.hosts .client).sent n := by
    rw [List.append_nil, hall]
  obtain ⟨action, e, hexec, houtcome, hgot, -⟩ := @exec_connection _ _ _ _ _ [] _ _ _ _ hsock hlog
    (hstream ▸ List.prefix_refl _) (wp_serveMessage hfd) fun _ _ _ _ _ _ => ⟨hclosed, hstream⟩
  obtain ⟨rfl, hstore⟩ := houtcome.eq_stopped (List.prefix_nil.mp hgot)
  exact ⟨e, hexec, hstore⟩

theorem exec_rpcRecvResp {raw : Frame}
    (hsock : (s.hosts .client).files connection.sockFd = some (.connection n))
    (hlog : (s.hosts .client).files 3 = some .log)
    (hstream : (s.hosts .server).sent n = (s.hosts .client).got n ++ raw.toBytes) :
    ∃ (now : UInt64) (e : Endpoint Keystore),
      Exec (netEnv .client) (rpcRecvResp connection) s (some (raw.resReceived now))
        (s.after .client n e) ∧ e.got = raw.toBytes ∧ e.sent = [] := by
  have hreceived {a : Option Frame} {e : Endpoint Keystore} (h : Reception .resReceived a e)
      (hgot : e.got <+: raw.toBytes) (hended : e.ended → e.got = raw.toBytes) :
      e.ended = false ∧ e.got = raw.toBytes ∧ e.sent = [] ∧
        ∃ now, a = some (raw.resReceived now) := by
    cases h with
    | ended hend hnone =>
      rw [hended hend, Frame.first_toBytes] at hnone
      cases hnone
    | rejected hnone => exact absurd hgot (Frame.not_prefix_of_none hnone)
    | @accepted _ f now hnot hf hsent =>
      obtain rfl : f = raw := Frame.eq_of_prefix (hf ▸ hgot)
      exact ⟨hnot, hf, hsent, now, rfl⟩
  obtain ⟨_, e, hexec, h, hgot, hall⟩ := @exec_connection _ _ _ _ _ raw.toBytes _ _ _ _ hsock hlog
    (hstream ▸ List.prefix_refl _) wp_reception fun _ e h hgot hall hended => by
      simp [(hreceived h hgot hall).1] at hended
  obtain ⟨-, hgot, hsent, now, rfl⟩ := hreceived h hgot hall
  exact ⟨now, e, hexec, hgot, hsent⟩

variable {response : Frame} {i : Nat} {nextRpcId : UInt32} {h : Host}

theorem exec_client_accepted (hlog : (s.hosts .client).files 3 = some .log) :
    Exec (netEnv .client) (clientCode stored args (.accepted 3 i nextRpcId connection j response)) s
      (.wait 3 i nextRpcId connection j response) s := by
  have habsorbs : Absorbs (netEnv .client) s 3 := fun buf =>
    ⟨s.hosts .client, s.keystore, ⟨rfl, .inl ⟨hlog, rfl⟩⟩, trivial, rfl, by simp⟩
  exact (exec_log habsorbs _).bind (.ret _ _)

/-- A client that is not to wait looks at the clock once. -/
theorem exec_client_wait (hwait : args.waitMs = 0) :
    Exec (netEnv .client) (clientCode stored args (.wait 3 i nextRpcId connection j response))
      (s.set .client h) (.request 3 i nextRpcId connection (j + 1)) (s.set .client (h.look 0)) := by
  have hnow : Exec (netEnv .client) nowUsec (s.set .client h) (some 0) (s.set .client (h.look 0)) :=
    exec_call .gettimeofday (some ⟨0, 0⟩) rfl trivial rfl (.ret _ _)
  refine hnow.bind ?_
  dsimp only
  rw [hwait, show ((0 : UInt32) * 1000).toUInt64 = 0 from rfl, if_neg UInt64.not_lt_zero]
  exact .ret _ _

theorem exec_client_close (hj : args.rpcsPerConn.toNat ≤ j) {file : File}
    (hsock : h.files connection.sockFd = some file) :
    Exec (netEnv .client) (clientCode stored args (.request 3 i nextRpcId connection j))
      (s.set .client h) (.connect 3 (i + 1) nextRpcId)
      (s.set .client (h.close connection.sockFd)) := by
  rw [clientCode, if_neg (Nat.not_lt.mpr hj)]
  exact exec_call (.close _) true ⟨rfl, by rw [hsock]; rfl, rfl⟩ trivial rfl (.ret _ _)

theorem exec_client_exit (hi : args.nConns.toNat ≤ i) :
    Exec (netEnv .client) (clientCode stored args (.connect 3 i nextRpcId)) s (.exited 0) s := by
  rw [clientCode, if_neg (Nat.not_lt.mpr hi)]
  exact .ret _ _

/-- The server waits for the next connection once the client has closed this one. -/
theorem exec_listen_end {port : Int32} (hfd : 4 ≠ connection.sockFd)
    (hsock : (s.hosts .server).files connection.sockFd = some (.connection n))
    (hlog : (s.hosts .server).files 4 = some .log)
    (hall : (s.hosts .server).got n = (s.hosts .client).sent n)
    (hclosed : (s.hosts .client).closed n) :
    ∃ e : Endpoint Keystore,
      Exec (netEnv .server) (listenCode port (.serve 3 4 connection)) s (.accept 3 4)
        (s.set .server (((s.hosts .server).after n e).close connection.sockFd)) := by
  obtain ⟨e, hexec, hstore⟩ := exec_serveMessage_end hfd hsock hlog hall hclosed
  have hs : s.after .server n e = s.set .server ((s.hosts .server).after n e) := by
    simp [Net.after, Net.set, hstore]
  rw [hs] at hexec
  refine ⟨e, hexec.bind ?_⟩
  exact exec_call (.close _) true ⟨rfl, by rw [Host.after_files, hsock]; rfl, rfl⟩ trivial rfl
    (.ret _ _)

end Messages

end SoftwareDynamics.Network

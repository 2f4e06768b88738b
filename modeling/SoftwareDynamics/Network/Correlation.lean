import SoftwareDynamics.Network.Scenario

/-! Request and response correlation.  The client never compares ids: that each response it accepts
is the answer to the request it has just sent follows from the order of the frames in both streams
of a connection. -/

namespace SoftwareDynamics.Network

open ProofKit Prog

section Flow

/-- What a side has got is what the other side has sent, up to what is still on its way. -/
def Net.Flows (s : Net) : Prop :=
  ∀ side n, (s.hosts side).got n <+: (s.hosts side.other).sent n

variable {h h' peer : Host} {op : SysOp} {r : op.Result}

/-- Only `read` and `write` move bytes. -/
theorem Host.act_quiet (hact : h.act op r h') (hread : ∀ fd count, op ≠ .read fd count)
    (hwrite : ∀ fd buf, op ≠ .write fd buf) : h'.got = h.got ∧ h'.sent = h.sent := by
  cases op with
  | read fd count => exact absurd rfl (hread fd count)
  | write fd buf => exact absurd rfl (hwrite fd buf)
  | close fd =>
    obtain ⟨rfl, -, rfl⟩ := hact
    exact ⟨rfl, rfl⟩
  | creat path =>
    rcases r with _ | fd
    · exact hact.elim
    obtain ⟨-, rfl⟩ := hact
    exact ⟨rfl, rfl⟩
  | socket =>
    rcases r with _ | fd
    · exact hact.elim
    obtain ⟨-, rfl⟩ := hact
    exact ⟨rfl, rfl⟩
  | bind fd port =>
    rcases r with _ | ⟨⟩
    · exact hact.elim
    obtain ⟨-, rfl⟩ := hact
    exact ⟨rfl, rfl⟩
  | listen fd backlog =>
    rcases r with _ | ⟨⟩
    · exact hact.elim
    obtain ⟨-, rfl⟩ := hact
    exact ⟨rfl, rfl⟩
  | inetPton src =>
    rcases r with _ | parsed
    · exact hact.elim
    obtain rfl : h' = h := hact
    exact ⟨rfl, rfl⟩
  | connect fd addr =>
    rcases r with _ | ⟨⟩
    · exact hact.elim
    obtain ⟨-, rfl⟩ := hact
    exact ⟨rfl, rfl⟩
  | accept fd =>
    rcases r with _ | ⟨peerFd, addr, addrLen⟩
    · exact hact.elim
    obtain ⟨-, -, -, rfl⟩ := hact
    exact ⟨rfl, rfl⟩
  | getsockname fd =>
    rcases r with _ | ⟨addr, addrLen⟩
    · exact hact.elim
    obtain ⟨-, rfl⟩ := hact
    exact ⟨rfl, rfl⟩
  | gettimeofday =>
    rcases r with _ | now
    · exact hact.elim
    obtain rfl : h' = h.look now.usec := hact
    exact ⟨rfl, rfl⟩
  | malloc size =>
    obtain ⟨-, rfl⟩ := hact
    exact ⟨rfl, rfl⟩
  | indeterminate size =>
    obtain rfl : h' = h := hact
    exact ⟨rfl, rfl⟩
  | emplace key value =>
    obtain rfl : h' = h := hact
    exact ⟨rfl, rfl⟩
  | find key =>
    obtain rfl : h' = h := hact
    exact ⟨rfl, rfl⟩

/-- What a side does keeps what it has got a part of what the other side has sent, and what it has
sent. -/
theorem Host.act_flows (hact : h.act op r h') (hgets : h.Gets peer op r)
    (hflow : ∀ n, h.got n <+: peer.sent n) :
    (∀ n, h'.got n <+: peer.sent n) ∧ ∀ n, h.sent n <+: h'.sent n := by
  have same (heq : h'.got = h.got ∧ h'.sent = h.sent) :
      (∀ n, h'.got n <+: peer.sent n) ∧ ∀ n, h.sent n <+: h'.sent n :=
    ⟨fun n => heq.1 ▸ hflow n, fun n => heq.2 ▸ List.prefix_refl _⟩
  cases op with
  | read fd count =>
    rcases r with _ | ⟨chunk, hlen⟩
    · exact hact.elim
    obtain ⟨m, hm, rfl⟩ := hact
    have hnext := hgets m hm
    refine ⟨fun n => ?_, fun n => List.prefix_refl _⟩
    by_cases hn : n = m
    · subst hn
      dsimp only at hnext
      split_ifs at hnext with hempty
      · simpa [receive, hempty] using hflow n
      · simpa [receive] using hnext
    · simpa [receive, hn] using hflow n
  | write fd buf =>
    obtain ⟨rfl, ⟨-, rfl⟩ | ⟨m, -, rfl⟩⟩ := hact
    · exact same ⟨rfl, rfl⟩
    · refine ⟨hflow, fun n => ?_⟩
      by_cases hn : n = m
      · subst hn
        simp [send]
      · simp [send, hn]
  | _ => exact same (act_quiet hact (by simp) (by simp))

/-- What one side does keeps the flow in both directions. -/
theorem Net.Flows.act {s s' : Net} (hs : s.Flows) {side : Side}
    (hact : (netEnv side).act s op r s') : s'.Flows := by
  obtain ⟨h, keystore, hact, hgets, -, rfl⟩ := hact
  have hne : side.other ≠ side := by cases side <;> nofun
  have hback : side.other.other = side := by cases side <;> rfl
  obtain ⟨hgot, hsent⟩ := Host.act_flows hact hgets (hs side)
  intro side' n
  by_cases heq : side' = side
  · subst heq
    simpa [Function.update_of_ne hne] using hgot n
  · obtain rfl : side' = side.other := by cases side <;> cases side' <;> trivial
    rw [hback]
    have hflow := hs side.other n
    rw [hback] at hflow
    simpa [Function.update_of_ne hne] using hflow.trans (hsent n)

variable {T : Type} [DecidableEq T] {stored : Bool} {args : Args} {ports : T → Int32}
  {ok : Party T → NetConfig T → Prop} {c c' : NetConfig T}

/-- In every run, what a side has got has been sent by the other one. -/
theorem net_flows (hrun : (net stored args ports).Runs ok c c') (hc : c.shared.Flows) :
    c'.shared.Flows := by
  refine hrun.invariant (I := fun c => c.shared.Flows) (fun t c l s hflows _ hmove => ?_) hc
  generalize c.own t = p at hmove
  cases hmove with
  | round => exact hflows
  | call hact =>
    cases t with
    | client => exact hflows.act hact
    | server => exact hflows.act hact
    | other t =>
      obtain ⟨keystore, -, rfl⟩ := hact
      exact hflows

end Flow

section Views

variable {T : Type} [DecidableEq T] {stored : Bool} {args : Args} {ports : T → Int32}
  {ok : Party T → NetConfig T → Prop} {c₀ c : NetConfig T}

theorem shared_act (op : SysOp) (r : op.Result) : StoreOps.shared.act () op r () := by
  cases op <;> trivial

/-- In every run, what holds at the control points of the client holds where it has come to one, as
long as it never gets more responses than it has sent requests. -/
theorem net_client (hfits : ∀ j, args.Fits j)
    (hanswered : ∀ c, (net stored args ports).Runs ok c₀ c → (c.shared.hosts .client).Answered)
    (hrun : (net stored args ports).Runs ok c₀ c) {n : Nat} {ys : List Exchange}
    (h : wp (hostEnv .shared) (c₀.own .client) (ClientAt stored args n ys)
      (c₀.shared.hosts .client, ())) {pc : ClientPc} (hown : c.own .client = .ret pc) :
    ClientAt stored args n ys pc (c.shared.hosts .client, ()) := by
  have hclient := hrun.wp_view .client (fun s => (s.hosts .client, ()))
    (J := fun pc v => v.1.Answered → ClientAt stored args n ys pc v) ?_ ?_
    (fun c pc hrun hgo hs => (hs (hanswered c hrun)).wp_clientCode hfits hgo)
    (wp_mono h fun _ _ hs _ => hs)
  · rw [hown] at hclient
    exact hclient (hanswered c hrun)
  · rintro c op k r _ - - ⟨h, keystore, hact, -, -, rfl⟩
    refine ⟨?_, shared_act op r⟩
    dsimp only
    rwa [Function.update_self]
  · rintro u hu c op k r s - - - hact
    cases u with
    | client => exact absurd rfl hu
    | server =>
      obtain ⟨h, keystore, -, -, -, rfl⟩ := hact
      dsimp only
      rw [Function.update_of_ne (by decide)]
    | other t =>
      obtain ⟨keystore, -, rfl⟩ := hact
      rfl

/-- In every run, what holds at the control points of the server's listener thread holds at the end
of its code in progress, whatever the other threads do to the keystore. -/
theorem net_server (hrun : (net stored args ports).Runs ok c₀ c)
    (h : wp (watchedServer .shared ()) (c₀.own .server) (ServerAt .shared ())
      (c₀.shared.hosts .server, ())) :
    wp (watchedServer .shared ()) (c.own .server) (ServerAt .shared ())
      (c.shared.hosts .server, ()) := by
  refine hrun.wp_view .server (fun s => (s.hosts .server, ())) ?_ ?_
    (fun _ _ _ hgo hs => hs.wp_listenCode hgo) h
  · rintro c op k r _ - - ⟨h, keystore, hact, -, -, rfl⟩
    refine ⟨?_, shared_act op r⟩
    dsimp only
    rwa [Function.update_self]
  · rintro u hu c op k r s - - - hact
    cases u with
    | server => exact absurd rfl hu
    | client =>
      obtain ⟨h, keystore, -, -, -, rfl⟩ := hact
      dsimp only
      rw [Function.update_of_ne (by decide)]
    | other t =>
      obtain ⟨keystore, -, rfl⟩ := hact
      rfl

end Views

section Matching

variable {κ : Type} {ops : StoreOps κ} {k₀ k : κ} {xs ys zs : List Exchange} {client server : Host}
  {args : Args} {c₀ : Nat}

/-- The exchanges on a connection are made of their requests and their responses. -/
theorem onConn_eq_zipWith (xs : List Exchange) (n : Nat) :
    onConn xs n = List.zipWith (Exchange.mk n) ((onConn xs n).map Exchange.request)
      ((onConn xs n).map Exchange.response) := by
  induction xs with
  | nil => rfl
  | cons x xs ih =>
    by_cases hx : x.conn = n
    · subst hx
      have hcons : onConn (x :: xs) x.conn = x :: onConn xs x.conn :=
        List.filter_cons_of_pos (by simp)
      rw [hcons, List.map_cons, List.map_cons, List.zipWith_cons_cons, ← ih]
    · have hcons : onConn (x :: xs) n = onConn xs n := List.filter_cons_of_neg (by simpa using hx)
      rw [hcons, ← ih]

/-- A client that is not waiting for a response has made exactly the exchanges that the server has
handled, on each of their connections, and nothing is on its way. -/
theorem Correlated.eq_of_called (hs : Correlated ops k₀ xs (server, k))
    (hc : Called args c₀ ys zs client) (requests : ∀ n, server.got n <+: client.sent n)
    (responses : ∀ n, client.got n <+: server.sent n) (n : Nat) :
    onConn xs n = onConn (ys ++ zs) n ∧ server.got n = client.sent n ∧
      client.got n = server.sent n := by
  have hrequests := Frame.stream_prefix (hc.sent n ▸ (hs.got n).trans (requests n))
  have hresponses := Frame.stream_prefix (hc.got n ▸ (responses n).trans (hs.sent n))
  have hle := hrequests.length_le
  have hge := hresponses.length_le
  rw [List.length_map, List.length_map] at hle hge
  have hreq := hrequests.eq_of_length (by simp only [List.length_map]; omega)
  have hres := hresponses.eq_of_length (by simp only [List.length_map]; omega)
  refine ⟨?_, ?_, ?_⟩
  · rw [onConn_eq_zipWith xs, hreq, ← hres, ← onConn_eq_zipWith]
  · refine (requests n).eq_of_length_le ?_
    rw [hc.sent n, ← hreq]
    exact (hs.got n).length_le
  · refine (responses n).eq_of_length_le ?_
    rw [hc.got n, hres]
    exact (hs.sent n).length_le

/-- As a server answers each request once, a client gets no more responses than it has sent
requests. -/
theorem Correlated.answered (hs : Correlated ops k₀ xs (server, k))
    (requests : ∀ n, server.got n <+: client.sent n)
    (responses : ∀ n, client.got n <+: server.sent n) : client.Answered :=
  fun n => ⟨(onConn xs n).map Exchange.request, (onConn xs n).map Exchange.response, by simp,
    (hs.got n).trans (requests n), (responses n).trans (hs.sent n)⟩

end Matching

section Correlation

/-- What a response has in common with the request that it answers. -/
structure Frame.Correlates (response request : Frame) : Prop where
  messageType : response.header.messageType = .Response
  rpcId : response.header.rpcId = request.header.rpcId
  parent : response.header.parent = request.header.parent
  reqSendTimeUs : response.header.reqSendTimeUs = request.header.reqSendTimeUs
  clientIp : response.header.clientIp = request.header.clientIp
  clientPort : response.header.clientPort = request.header.clientPort
  serverIp : response.header.serverIp = request.header.serverIp
  serverPort : response.header.serverPort = request.header.serverPort
  reqLenLog : response.header.reqLenLog = request.header.reqLenLog
  method : response.header.method = request.header.method

/-- All that has passed over a connection: exchanges, each of them a request of the client and the
answer of the server to it. -/
structure Conversation (client server : Host) (n : Nat) (xs : List Exchange) : Prop where
  requested : client.sent n = Frame.stream (xs.map Exchange.request)
  handled : server.got n = client.sent n
  answered : server.sent n = Frame.stream (xs.map Exchange.response)
  received : client.got n = server.sent n
  matched : ∀ x ∈ xs, x.conn = n ∧ x.response.Answers x.request ∧
    Handles .shared () x.request x.response.header.status x.response.data ()

theorem Frame.Answers.correlates {request raw : Frame} (h : raw.Answers request) (now : UInt64) :
    (raw.resReceived now).Correlates request := by
  have hheader := h.header
  constructor <;> simp only [Frame.resReceived] <;> rw [hheader]

theorem Handles.ping_data {κ : Type} {ops : StoreOps κ} {k k' : κ} {request : Frame}
    {status : RpcStatus} {body : Bytes} (h : Handles ops k request status body k')
    (hping : request.methodName = ascii "ping") : body = request.data := by
  cases h with
  | ping => rfl
  | write hname => exact absurd (hping.symm.trans hname) (by decide)
  | badWrite hname => exact absurd (hping.symm.trans hname) (by decide)
  | read hname => exact absurd (hping.symm.trans hname) (by decide)
  | notFound hname => exact absurd (hping.symm.trans hname) (by decide)
  | quit hname => exact absurd (hping.symm.trans hname) (by decide)

theorem Chain.handled {κ : Type} {ops : StoreOps κ} {k₀ k : κ} {xs : List Exchange}
    (h : Chain ops k₀ xs k) {x : Exchange} (hx : x ∈ xs) : x.response.Answers x.request ∧
      ∃ k k', Handles ops k x.request x.response.header.status x.response.data k' := by
  induction h with
  | start => cases hx
  | handle _ hhandles hanswers ih =>
    rcases List.mem_append.mp hx with hx | hx
    · exact ih hx
    · rw [List.mem_singleton.mp hx]
      exact ⟨hanswers, _, _, hhandles⟩

/-- Where no byte is on its way, all that has passed over a connection are the exchanges that the
client has made on it. -/
theorem Correlated.conversation_onConn {client server : Host} {xs zs : List Exchange} {k : Unit}
    (hs : Correlated .shared () xs (server, k)) {args : Args} (hc : Called args 0 [] zs client)
    (requests : ∀ n, server.got n <+: client.sent n)
    (responses : ∀ n, client.got n <+: server.sent n) (n : Nat) :
    Conversation client server n (onConn zs n) := by
  obtain ⟨honConn, hhandled, hreceived⟩ := hs.eq_of_called hc requests responses n
  refine ⟨hc.sent n, hhandled, hreceived ▸ hc.got n, hreceived, fun z hz => ?_⟩
  rw [List.nil_append] at honConn
  rw [← honConn] at hz
  obtain ⟨hz, hn⟩ := List.mem_filter.mp hz
  obtain ⟨hanswers, k, k', hhandles⟩ := hs.chain.handled hz
  exact ⟨of_decide_eq_true hn, hanswers, hhandles⟩

theorem correlated_init {κ : Type} (ops : StoreOps κ) (k : κ) :
    Correlated ops k [] (.init, k) where
  chain := .start
  ordered := .nil
  opened := nofun
  got _ := List.nil_prefix
  sent _ := List.nil_prefix
  timed := nofun

theorem called_init (args : Args) : Called args 0 [] [] .init where
  asks := nofun
  later := nofun
  opened := nofun
  sent _ := rfl
  got _ := rfl

theorem netInit_flows (T : Type) (keystore : Keystore) : (netInit T keystore).shared.Flows :=
  fun _ _ => List.nil_prefix

theorem net_answered {T : Type} [DecidableEq T] {stored : Bool} {args : Args} {ports : T → Int32}
    {keystore : Keystore} {c : NetConfig T}
    (hrun : (net stored args ports).Runs (fun _ _ => True) (netInit T keystore) c) :
    (c.shared.hosts .client).Answered := by
  have hserver := net_server hrun (.start (fun _ _ => ⟨rfl, rfl⟩) (correlated_init _ ()))
  obtain ⟨xs, hcorrelated⟩ := Env.watch_holds hserver fun _ _ hs => hs.correlated
  have hflows := net_flows hrun (netInit_flows T keystore)
  exact hcorrelated.answered (hflows .server) (hflows .client)

/-- Where the first client of a server has come to a control point. -/
theorem net_clientAt {T : Type} [DecidableEq T] {stored : Bool} {args : Args} {ports : T → Int32}
    {keystore : Keystore} (hfits : ∀ j, args.Fits j) {c : NetConfig T}
    (hrun : (net stored args ports).Runs (fun _ _ => True) (netInit T keystore) c) {pc : ClientPc}
    (hown : c.own .client = .ret pc) :
    ClientAt stored args 0 [] pc (c.shared.hosts .client, ()) :=
  net_client hfits (fun _ hrun => net_answered hrun) hrun
    (.start (Nat.zero_le _) (called_init args)) hown

/-- The bodies of all requests of a client can be read if one of its requests has been answered. -/
theorem readable_of_accepted {T : Type} [DecidableEq T] {stored : Bool} {args : Args}
    {ports : T → Int32} {keystore : Keystore} (hfits : ∀ j, args.Fits j) {c : NetConfig T}
    (hrun : (net stored args ports).Runs (fun _ _ => True) (netInit T keystore) c) {logFd : Fd}
    {i : Nat} {nextRpcId : UInt32} {connection : Connection} {j : Nat} {response : Frame}
    (haccepted : c.own .client = .ret (.accepted logFd i nextRpcId connection j response)) :
    ∀ j, args.Readable stored j := by
  cases net_clientAt hfits hrun haccepted with
  | stopped hover => cases hover
  | accepted _ _ _ _ haccepted => exact fun _ => haccepted.readable

/-- For every run of a client against the server, while other clients may be served on other ports,
the response that the client accepts after it has sent a request is the answer to this request, and
each frame that has passed over the connection belongs to one exchange. -/
theorem response_correlates {T : Type} [DecidableEq T] (stored : Bool) (args : Args)
    (ports : T → Int32) (keystore : Keystore) (hfits : ∀ j, args.Fits j) {c : NetConfig T}
    (hrun : (net stored args ports).Runs (fun _ _ => True) (netInit T keystore) c) {logFd : Fd}
    {i : Nat} {nextRpcId : UInt32} {connection : Connection} {j : Nat} {response : Frame}
    (haccepted : c.own .client = .ret (.accepted logFd i nextRpcId connection j response)) :
    let client := c.shared.hosts .client
    let server := c.shared.hosts .server
    ∃ (n : Nat) (earlier : List Exchange) (request raw : Frame) (rpcId : UInt32) (now : UInt64),
      client.files connection.sockFd = some (.connection n) ∧
      nextRpcId = rpcId + 1 ∧ args.Asks connection j rpcId request ∧
      Conversation client server n (earlier ++ [⟨n, request, raw⟩]) ∧
      response = raw.resReceived now ∧ response.Correlates request ∧
      (args.command = .Ping → response.data = request.data) ∧
      (client.clock.Pairwise (· ≥ ·) →
        response.header.reqSendTimeUs ≤ response.header.resRecvTimeUs) ∧
      (server.clock.Pairwise (· ≥ ·) →
        response.header.reqRecvTimeUs ≤ response.header.resSendTimeUs) := by
  intro client server
  have hflows := net_flows hrun (netInit_flows T keystore)
  have hclient := net_clientAt hfits hrun haccepted
  have hserver := net_server hrun (.start (fun _ _ => ⟨rfl, rfl⟩) (correlated_init _ ()))
  obtain ⟨xs, hcorrelated⟩ := Env.watch_holds hserver fun _ _ hs => hs.correlated
  cases hclient with
  | stopped hover => cases hover
  | @accepted _ _ _ _ _ n request raw _ zs now hc _ _ _ haccepted =>
    have hmatch := hcorrelated.eq_of_called hc.called (hflows .server) (hflows .client) n
    obtain ⟨honConn, hhandled, hreceived⟩ := hmatch
    rw [List.nil_append, onConn_append, onConn_singleton, if_pos rfl] at honConn
    have hmatched (x : Exchange) (hx : x ∈ onConn zs n ++ [⟨n, request, raw⟩]) : x ∈ xs ∧
        x.conn = n ∧ x.response.Answers x.request ∧
        Handles .shared () x.request x.response.header.status x.response.data () := by
      rw [← honConn] at hx
      obtain ⟨hx, hn⟩ := List.mem_filter.mp hx
      obtain ⟨hanswers, k, k', hhandles⟩ := hcorrelated.chain.handled hx
      exact ⟨hx, of_decide_eq_true hn, hanswers, hhandles⟩
    obtain ⟨hlast, -, hanswers, hhandles⟩ := hmatched ⟨n, request, raw⟩ (by simp)
    obtain ⟨-, ⟨rpcId, hnext, hasks⟩, htimed⟩ := haccepted
    refine ⟨n, onConn zs n, request, raw, rpcId, now, hc.sock, hnext, hasks, ?_, rfl,
      hanswers.correlates now, fun hping => ?_, fun hsorted => ?_, fun hsorted => ?_⟩
    · have hrequested := hc.called.sent n
      have hanswered := hc.called.got n
      rw [List.nil_append, onConn_append, onConn_singleton, if_pos rfl] at hrequested hanswered
      exact ⟨hrequested, hhandled, hreceived ▸ hanswered, hreceived, fun x hx => (hmatched x hx).2⟩
    · exact hhandles.ping_data (by rw [hasks.methodName, hping]; rfl)
    · rw [(hanswers.correlates now).reqSendTimeUs]
      exact htimed hsorted
    · exact hcorrelated.timed _ hlast hsorted

/-- The second of two `ping`s without a value. -/
theorem response_correlates_ping : ∃ (c : NetConfig Unit) (connection : Connection)
    (request response : Frame),
    (net true (twoRequests .Ping none none) fun _ => 12346).Runs (fun _ _ => True)
      (netInit Unit ∅) c ∧
    c.own .client = .ret (.accepted 3 0 3 connection 1 response) ∧
    request.methodName = ascii "ping" ∧ response.Correlates request ∧
    response.data = ascii "foo bar baz" ++ [0] := by
  obtain ⟨c, connection, _, _, _, hrun, hclient, -⟩ :=
    @runs_twoRequests Unit _ true (fun _ => 12346) (fun _ _ => True) .Ping none none
      (fun _ => trivial) (fun _ => trivial) (fun _ => .inl rfl) twoPings_fit nofun ∅
  obtain ⟨_, _, request, _, _, _, -, -, hasks, -, -, hcorrelates, hping, -⟩ :=
    response_correlates true (twoRequests .Ping none none) (fun _ => 12346) ∅ twoPings_fit hrun
      hclient
  have hname := hasks.methodName
  obtain ⟨body, hbody, hrequest⟩ := hasks
  exact ⟨c, connection, request, _, hrun, hclient, hname, hcorrelates,
    (hping rfl).trans (hrequest.data.trans hbody)⟩

end Correlation

end SoftwareDynamics.Network

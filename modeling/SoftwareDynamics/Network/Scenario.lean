import SoftwareDynamics.Network.Progress

/-! A client that makes one request, or more, and the server: the runs in which nothing else
happens, and each side goes on as soon as it can. -/

namespace SoftwareDynamics.Network

open ProofKit Prog

section Scenario

/-- `n` connections have been, none is open, and the server waits for the next one. -/
structure Net.Rest (s : Net) (n : Nat) : Prop where
  listening : (s.hosts .server).files 3 = some .socket
  serverLog : (s.hosts .server).files 4 = some .log
  free : (s.hosts .server).files 5 = none
  conns : ∀ side, (s.hosts side).conns = n
  unused : ∀ side, (s.hosts side).Unused

/-- Connection `n` is open.  On it, the bytes `pending` are on their way to the server, and the
bytes `reply` to the client. -/
structure Net.Joined (s : Net) (n : Nat) (pending reply : Bytes) : Prop where
  clientLog : (s.hosts .client).files 3 = some .log
  clientSock : (s.hosts .client).files 4 = some (.connection n)
  listening : (s.hosts .server).files 3 = some .socket
  serverLog : (s.hosts .server).files 4 = some .log
  serverSock : (s.hosts .server).files 5 = some (.connection n)
  conns : ∀ side, (s.hosts side).conns = n + 1
  unused : ∀ side, (s.hosts side).Unused
  requests : (s.hosts .client).sent n = (s.hosts .server).got n ++ pending
  responses : (s.hosts .server).sent n = (s.hosts .client).got n ++ reply

variable {s : Net} {n : Nat} {e : Endpoint Keystore} {pending reply : Bytes}

@[simp] theorem Net.after_hosts_self (s : Net) (side : Side) (n : Nat) (e : Endpoint Keystore) :
    (s.after side n e).hosts side = (s.hosts side).after n e := by simp [after]

@[simp] theorem Net.after_hosts_of_ne (s : Net) {side side' : Side} (n : Nat)
    (e : Endpoint Keystore) (hne : side' ≠ side) :
    (s.after side n e).hosts side' = s.hosts side' := by simp [after, hne]

/-- The client has opened its connection, and the server has accepted it. -/
theorem Net.Rest.joined (hrest : s.Rest n) :
    ((s.set .client ((((s.hosts .client).openFile 3 .log).openFile 4 .socket).connect 4)).set
      .server ((s.hosts .server).connect 5)).Joined n [] [] := by
  obtain ⟨h3, h4, -, hconns, hunused⟩ := hrest
  obtain ⟨hgot, hsent⟩ := hunused .client n (Nat.le_of_eq (hconns .client))
  obtain ⟨hgot', hsent'⟩ := hunused .server n (Nat.le_of_eq (hconns .server))
  refine ⟨?_, ?_, ?_, ?_, ?_, fun side => ?_, fun side m hm => ?_, ?_, ?_⟩
  · simp [Host.connect, Host.openFile]
  · simp [Host.connect, Host.openFile, hconns]
  · simp [Host.connect, Host.openFile, h3]
  · simp [Host.connect, Host.openFile, h4]
  · simp [Host.connect, Host.openFile, hconns]
  · cases side <;> simp [Host.connect, Host.openFile, hconns]
  · cases side with
    | client =>
      simp only [ne_eq, reduceCtorEq, not_false_eq_true, Net.set_hosts_of_ne,
        Net.set_hosts_self] at hm ⊢
      exact hunused .client m (Nat.le_of_succ_le hm)
    | server =>
      simp only [Net.set_hosts_self] at hm ⊢
      exact hunused .server m (Nat.le_of_succ_le hm)
  · simp [Host.connect, Host.openFile, hsent, hgot']
  · simp [Host.connect, Host.openFile, hsent', hgot]

theorem Net.Joined.after_client (hj : s.Joined n pending (e.got ++ reply)) :
    (s.after .client n e).Joined n (pending ++ e.sent) reply := by
  have hclient := hj.conns .client
  obtain ⟨h1, h2, h3, h4, h5, hconns, hunused, hrequests, hresponses⟩ := hj
  refine ⟨by simpa using h1, by simpa using h2, by simpa using h3, by simpa using h4,
    by simpa using h5, fun side => ?_, fun side => ?_, ?_, ?_⟩
  · cases side <;> simp [hconns]
  · cases side with
    | client => simpa using (hunused .client).after (by omega)
    | server => simpa using hunused .server
  · simp [hrequests]
  · simp [hresponses]

theorem Net.Joined.after_server (hj : s.Joined n (e.got ++ pending) reply) :
    (s.after .server n e).Joined n pending (reply ++ e.sent) := by
  have hserver := hj.conns .server
  obtain ⟨h1, h2, h3, h4, h5, hconns, hunused, hrequests, hresponses⟩ := hj
  refine ⟨by simpa using h1, by simpa using h2, by simpa using h3, by simpa using h4,
    by simpa using h5, fun side => ?_, fun side => ?_, ?_, ?_⟩
  · cases side <;> simp [hconns]
  · cases side with
    | client => simpa using hunused .client
    | server => simpa using (hunused .server).after (by omega)
  · simp [hrequests]
  · simp [hresponses]

/-- The client looks at its clock. -/
theorem Net.Joined.look (hj : s.Joined n pending reply) (now : UInt64) :
    (s.set .client ((s.hosts .client).look now)).Joined n pending reply := by
  obtain ⟨h1, h2, h3, h4, h5, hconns, hunused, hrequests, hresponses⟩ := hj
  refine ⟨by simpa [Host.look] using h1, by simpa [Host.look] using h2, by simpa using h3,
    by simpa using h4, by simpa using h5, fun side => ?_, fun side => ?_, ?_, ?_⟩
  · cases side <;> simp [Host.look, hconns]
  · cases side with
    | client =>
      rw [Net.set_hosts_self]
      exact hunused .client
    | server => simpa using hunused .server
  · simpa [Host.look] using hrequests
  · simpa [Host.look] using hresponses

end Scenario

section Runs

variable {T : Type} [DecidableEq T] {stored : Bool} {args : Args} {ports : T → Int32}
  {ok : Party T → NetConfig T → Prop} {c₀ c : NetConfig T} {n : Nat} {keystore : Keystore}

/-- A client is at its start, and the server waits for it. -/
structure Waiting (c : NetConfig T) (n : Nat) (keystore : Keystore) : Prop where
  client : c.own .client = .ret .start
  server : c.own .server = .ret (.accept 3 4)
  rest : c.shared.Rest n
  files : ∀ fd, (c.shared.hosts .client).files fd = none
  keystore : c.shared.keystore = keystore

/-- The server serves connection `n`, on which nothing is on its way.  The descriptors of its two
ends are those of `connection` and `connection'`. -/
structure Serving (c : NetConfig T) (n : Nat) (connection connection' : Connection) : Prop where
  clientFd : connection.sockFd = 4
  server : c.own .server = .ret (.serve 3 4 connection')
  serverFd : connection'.sockFd = 5
  joined : c.shared.Joined n [] []

/-- The client executes the next part of its code. -/
theorem client_exec (hrun : (net stored args ports).Runs ok c₀ c) (hok : ∀ c, ok .client c)
    {α : Type} {p : Sys α} {k : α → Sys ClientPc} {a : α} {s : Net}
    (hown : c.own .client = p >>= k)
    (hexec : Exec (netEnv .client) p c.shared a s) :
    ∃ c', (net stored args ports).Runs ok c₀ c' ∧ c'.own .client = k a ∧
      c'.own .server = c.own .server ∧ c'.shared = s :=
  ⟨_, hrun.exec hok hown hexec, Config.set_own_self _ _ _ _,
    Config.set_own_of_ne (t := .client) (u := .server) c nofun (k a) s, rfl⟩

theorem client_enter (hrun : (net stored args ports).Runs ok c₀ c) (hok : ∀ c, ok .client c)
    {pc : ClientPc}
    (hown : c.own .client = .ret pc) (hgo : pc.over = false) :
    ∃ c', (net stored args ports).Runs ok c₀ c' ∧ c'.own .client = clientCode stored args pc ∧
      c'.own .server = c.own .server ∧ c'.shared = c.shared :=
  ⟨_, hrun.enter hok hown hgo, Config.set_own_self _ _ _ _,
    Config.set_own_of_ne (t := .client) (u := .server) c nofun (clientCode stored args pc) c.shared,
    rfl⟩

theorem client_round (hrun : (net stored args ports).Runs ok c₀ c) (hok : ∀ c, ok .client c)
    {pc pc' : ClientPc} {s : Net} (hown : c.own .client = .ret pc) (hgo : pc.over = false)
    (hexec : Exec (netEnv .client) (clientCode stored args pc) c.shared pc' s) :
    ∃ c', (net stored args ports).Runs ok c₀ c' ∧ c'.own .client = .ret pc' ∧
      c'.own .server = c.own .server ∧ c'.shared = s :=
  ⟨_, hrun.round hok hown hgo hexec, Config.set_own_self _ _ _ _,
    Config.set_own_of_ne (t := .client) (u := .server) c nofun (.ret pc') s, rfl⟩

theorem server_round (hrun : (net stored args ports).Runs ok c₀ c) (hok : ∀ c, ok .server c)
    {pc pc' : ListenPc} {s : Net} (hown : c.own .server = .ret pc) (hgo : pc.over = false)
    (hexec : Exec (netEnv .server) (listenCode (.ofNat args.port.toNat) pc) c.shared pc' s) :
    ∃ c', (net stored args ports).Runs ok c₀ c' ∧ c'.own .server = .ret pc' ∧
      c'.own .client = c.own .client ∧ c'.shared = s :=
  ⟨_, hrun.round hok hown hgo hexec, Config.set_own_self _ _ _ _,
    Config.set_own_of_ne (t := .server) (u := .client) c nofun (.ret pc') s, rfl⟩

theorem runs_listen (hok : ∀ c, ok .server c) (keystore : Keystore) :
    ∃ c, (net stored args ports).Runs ok (netInit T keystore) c ∧ Waiting c 0 keystore := by
  have hlisten := @exec_listen_start (netInit T keystore).shared .init (.ofNat args.port.toNat)
    rfl rfl
  rw [show Host.init = (netInit T keystore).shared.hosts .server from rfl, Net.set_self] at hlisten
  obtain ⟨c, hrun, hserver, hclient, hs⟩ :=
    server_round (Threads.Runs.start (netInit T keystore)) hok rfl rfl hlisten
  refine ⟨c, hrun, hclient, hserver, ⟨?_, ?_, ?_, ?_, ?_⟩, fun fd => ?_, by rw [hs]; rfl⟩
  all_goals rw [hs]
  · simp [Host.openFile]
  · simp [Host.openFile]
  · simp [Host.openFile]
    rfl
  · rintro (_ | _) <;> simp [Host.openFile] <;> rfl
  · rintro (_ | _) m - <;> simp [Host.openFile] <;> exact ⟨rfl, rfl⟩
  · simp
    rfl

/-- The client opens its connection, and the server accepts it. -/
theorem Waiting.join (hc : Waiting c n keystore) (hrun : (net stored args ports).Runs ok c₀ c)
    (hok : ∀ c, ok .client c) (hok' : ∀ c, ok .server c) (hconns : 0 < args.nConns.toNat) :
    ∃ (c' : NetConfig T) (connection connection' : Connection),
      (net stored args ports).Runs ok c₀ c' ∧
      c'.own .client = .ret (.request 3 0 1 connection 0) ∧ Serving c' n connection connection' ∧
      c'.shared.keystore = keystore := by
  obtain ⟨hclient, hserver, hrest, hfiles, rfl⟩ := hc
  have hjoined := hrest.joined
  have hstart := @exec_client_start c.shared (c.shared.hosts .client) stored args (hfiles 3)
  obtain ⟨connection, hfd, hconnect⟩ := @exec_client_connect c.shared
    ((c.shared.hosts .client).openFile 3 .log) stored args 1 hconns
    (by simp [Host.openFile, hfiles]) hrest.listening
  obtain ⟨connection', hfd', haccept⟩ := @exec_listen_accept
    (c.shared.set .client
      ((((c.shared.hosts .client).openFile 3 .log).openFile 4 .socket).connect 4))
    (c.shared.hosts .server) (.ofNat args.port.toNat) hrest.listening hrest.free
    (by simp [Host.connect, Host.openFile, hrest.conns])
  rw [Net.set_self] at hstart
  obtain ⟨c₁, hrun, hclient, hserver₁, hs₁⟩ := client_round hrun hok hclient rfl hstart
  obtain ⟨c₂, hrun, hclient, hserver₂, hs₂⟩ := client_round hrun hok hclient rfl (hs₁ ▸ hconnect)
  have hself : c₂.shared.set .server (c.shared.hosts .server) = c₂.shared := by
    have hhosts : c₂.shared.hosts .server = c.shared.hosts .server := by simp [hs₂]
    rw [← hhosts, Net.set_self]
  rw [← hs₂, hself] at haccept
  obtain ⟨c₃, hrun, hserver₃, hclient₃, hs₃⟩ :=
    server_round hrun hok' (hserver₂.trans (hserver₁.trans hserver)) rfl haccept
  rw [← hs₂, ← hs₃] at hjoined
  exact ⟨c₃, connection, connection', hrun, hclient₃.trans hclient,
    ⟨hfd, hserver₃, hfd', hjoined⟩, by rw [hs₃, Net.set_keystore, hs₂, Net.set_keystore]⟩

/-- A client that makes one request on one connection. -/
def oneRequest (command : Command) (key value : Option CString) : Args where
  server := ⟨ascii "127.0.0.1", loopback_noNul⟩
  port := 12345
  nConns := 1
  rpcsPerConn := 1
  waitMs := 0
  seed1 := false
  verbose := false
  command
  commandStr := ⟨command.str, command.str_noNul⟩
  commandStr_eq := rfl
  keyConfig := ⟨key, false, .ofNat (key.elim 0 fun key => key.bytes.length)⟩
  valueConfig := ⟨value, false, .ofNat (value.elim 0 fun value => value.bytes.length)⟩

/-- A client that makes two requests on one connection. -/
def twoRequests (command : Command) (key value : Option CString) : Args :=
  { oneRequest command key value with rpcsPerConn := 2 }

theorem twoPings_fit (j : Nat) : (twoRequests .Ping none none).Fits j :=
  (by decide : (ascii "foo bar baz" ++ [0]).length < 2 ^ 32)

variable {connection connection' : Connection}

/-- The parts of the code for one request. -/
theorem clientCode_request {i j : Nat} {nextRpcId : UInt32} {connection : Connection}
    (hj : j < args.rpcsPerConn.toNat) :
    ∃ k : Option Body → Sys ClientPc,
      clientCode stored args (.request 3 i nextRpcId connection j) =
        requestBody stored args j >>= k ∧
      ∀ body, ∃ k' : Option Unit × UInt32 → Sys ClientPc,
        k (some body) = rpcSendReq connection body 0 args.commandStr 3 nextRpcId >>= k' ∧
        ∀ sent, ∃ k'' : Option Frame → Sys ClientPc, k' sent = rpcRecvResp connection >>= k'' ∧
          ∀ response, k'' (some response) = .ret (.accepted 3 i sent.2 connection j response) := by
  rw [clientCode, if_pos hj]
  exact ⟨_, rfl, fun _ => ⟨_, rfl, fun _ => ⟨_, rfl, fun _ => rfl⟩⟩⟩

/-- A client makes a request, the server answers it, and the client accepts the answer. -/
theorem Serving.accepted (h : Serving c n connection connection')
    (hrun : (net stored args ports).Runs ok c₀ c) (hok : ∀ c, ok .client c)
    (hok' : ∀ c, ok .server c) {i j : Nat} {rpcId : UInt32}
    (hclient : c.own .client = .ret (.request 3 i rpcId connection j))
    (hrpcs : j < args.rpcsPerConn.toNat) (hreadable : args.Readable stored j)
    (hfits : args.Fits j) (hquit : args.command ≠ .Quit) :
    ∃ (c' : NetConfig T) (request raw : Frame) (now : UInt64),
      (net stored args ports).Runs ok c₀ c' ∧
      c'.own .client = .ret (.accepted 3 i (rpcId + 1) connection j (raw.resReceived now)) ∧
      Serving c' n connection connection' ∧ args.Asks connection j rpcId request ∧
      Handles .alone c.shared.keystore request raw.header.status raw.data c'.shared.keystore := by
  obtain ⟨hfd, hserver, hfd', hj⟩ := h
  obtain ⟨k, hcode, hk⟩ := @clientCode_request stored args i j rpcId connection hrpcs
  obtain ⟨c₁, hrun, hclient, hserver₁, hs₁⟩ := client_enter hrun hok hclient rfl
  rw [← hs₁] at hj
  -- The client sends its request.
  obtain ⟨body, hexec, hbody, hshort⟩ := @exec_requestBody _ connection _ _ _ _ hreadable hfits
    (hfd ▸ hj.clientSock) hj.clientLog (by rw [hj.responses, List.append_nil])
  obtain ⟨k', hk, hk'⟩ := hk body
  obtain ⟨c₂, hrun, hclient, hserver₂, hs₂⟩ := client_exec hrun hok (hclient.trans hcode) hexec
  rw [← hs₂] at hj
  obtain ⟨request, e, hexec, hrequest, hgot, hsent⟩ := @exec_rpcSendReq c₂.shared connection n body
    args.commandStr rpcId hshort (by rw [hfd]; decide) (hfd ▸ hj.clientSock) hj.clientLog
    (by rw [hj.responses, List.append_nil])
  obtain ⟨k'', hk', hk''⟩ := hk' (some (), rpcId + 1)
  obtain ⟨c₃, hrun, hclient, hserver₃, hs₃⟩ := client_exec hrun hok (hclient.trans hk) hexec
  have hj := @Net.Joined.after_client _ _ e _ [] (by rwa [hgot])
  rw [hsent, List.nil_append, ← hs₃] at hj
  -- The server answers it.
  have hasks : args.Asks connection j rpcId request := ⟨body, hbody, hrequest⟩
  have hname := hasks.methodName
  have hknown : request.methodName ∈ methods := by
    rw [hname]
    cases args.command <;> decide
  have haction : request.action = none := by
    rw [Frame.action, if_neg]
    rw [hname]
    revert hquit
    cases args.command <;> decide
  obtain ⟨raw, e', hexec, hgot, hsent, hhandles, hanswers⟩ := @exec_serveMessage _ connection' _ _
    (by rw [hfd']; decide) (hfd' ▸ hj.serverSock) hj.serverLog hj.requests hknown
  rw [haction] at hexec
  have hserving : c₃.own .server = .ret (.serve 3 4 connection') := by
    rw [hserver₃, hserver₂, hserver₁, hserver]
  obtain ⟨c₄, hrun, hserver₄, hclient₄, hs₄⟩ :=
    server_round hrun hok' hserving rfl (hexec.bind (.ret _ _))
  have hj := @Net.Joined.after_server _ _ e' [] _ (by rwa [hgot, List.append_nil])
  rw [hsent, List.nil_append, ← hs₄] at hj
  -- The client accepts the answer.
  obtain ⟨now, e'', hexec, hgot, hsent⟩ := @exec_rpcRecvResp _ connection _ _
    (hfd ▸ hj.clientSock) hj.clientLog hj.responses
  obtain ⟨c₅, hrun, hclient, hserver₅, hs₅⟩ :=
    client_exec hrun hok (hclient₄.trans (hclient.trans hk')) hexec
  have hj := @Net.Joined.after_client _ _ e'' _ [] (by rwa [hgot, List.append_nil])
  rw [hsent, List.nil_append, ← hs₅] at hj
  refine ⟨c₅, request, raw, now, hrun, by rw [hclient, hk''],
    ⟨hfd, by rw [hserver₅, hserver₄], hfd', hj⟩, hasks, ?_⟩
  have hstore : c₃.shared.keystore = c.shared.keystore := by
    rw [hs₃, ← hs₁, ← hs₂]
    rfl
  have hstore' : c₅.shared.keystore = e'.store := by
    rw [hs₅]
    simp [Net.after, hs₄]
  rwa [← hstore, hstore']

/-- A client makes its first request, and accepts the answer. -/
theorem Waiting.accepted (hc : Waiting c n keystore) (hrun : (net stored args ports).Runs ok c₀ c)
    (hok : ∀ c, ok .client c) (hok' : ∀ c, ok .server c) (hconns : 0 < args.nConns.toNat)
    (hrpcs : 0 < args.rpcsPerConn.toNat) (hreadable : args.Readable stored 0)
    (hfits : args.Fits 0) (hquit : args.command ≠ .Quit) :
    ∃ (c' : NetConfig T) (connection connection' : Connection) (request raw : Frame) (now : UInt64),
      (net stored args ports).Runs ok c₀ c' ∧
      c'.own .client = .ret (.accepted 3 0 2 connection 0 (raw.resReceived now)) ∧
      Serving c' n connection connection' ∧ args.Asks connection 0 1 request ∧
      Handles .alone keystore request raw.header.status raw.data c'.shared.keystore := by
  obtain ⟨c₁, connection, connection', hrun, hclient, hserving, rfl⟩ :=
    hc.join hrun hok hok' hconns
  obtain ⟨c', request, raw, now, haccepted⟩ :=
    hserving.accepted hrun hok hok' hclient hrpcs hreadable hfits hquit
  exact ⟨c', connection, connection', request, raw, now, haccepted⟩

/-- A client that is not to wait goes on to its next request. -/
theorem Serving.again (h : Serving c n connection connection')
    (hrun : (net stored args ports).Runs ok c₀ c) (hok : ∀ c, ok .client c)
    (hwait : args.waitMs = 0) {i j : Nat} {rpcId : UInt32} {response : Frame}
    (hclient : c.own .client = .ret (.accepted 3 i rpcId connection j response)) :
    ∃ c' : NetConfig T, (net stored args ports).Runs ok c₀ c' ∧
      c'.own .client = .ret (.request 3 i rpcId connection (j + 1)) ∧
      Serving c' n connection connection' ∧ c'.shared.keystore = c.shared.keystore := by
  obtain ⟨hfd, hserver, hfd', hj⟩ := h
  have hwaits := @exec_client_wait c.shared connection stored args j response i rpcId
    (c.shared.hosts .client) hwait
  rw [Net.set_self] at hwaits
  obtain ⟨c₁, hrun, hclient, hserver₁, hs₁⟩ :=
    client_round hrun hok hclient rfl (exec_client_accepted hj.clientLog)
  obtain ⟨c₂, hrun, hclient, hserver₂, hs₂⟩ := client_round hrun hok hclient rfl (hs₁ ▸ hwaits)
  rw [hs₁] at hs₂
  exact ⟨c₂, hrun, hclient, ⟨hfd, by rw [hserver₂, hserver₁, hserver], hfd', hs₂ ▸ hj.look 0⟩,
    by rw [hs₂, Net.set_keystore]⟩

/-- A client makes two requests, and has accepted the answers to both. -/
theorem runs_twoRequests {command : Command} {key value : Option CString}
    (hok : ∀ c, ok .client c) (hok' : ∀ c, ok .server c)
    (hreadable : ∀ j, (twoRequests command key value).Readable stored j)
    (hfits : ∀ j, (twoRequests command key value).Fits j) (hquit : command ≠ .Quit)
    (keystore : Keystore) :
    ∃ (c : NetConfig T) (connection connection' : Connection) (raw : Frame) (now : UInt64),
      (net stored (twoRequests command key value) ports).Runs ok (netInit T keystore) c ∧
      c.own .client = .ret (.accepted 3 0 3 connection 1 (raw.resReceived now)) ∧
      Serving c 0 connection connection' := by
  have hconns : 0 < (1 : UInt32).toNat := by decide
  have hrpcs (j : Nat) (hj : j < 2) : j < (2 : UInt32).toNat := hj
  obtain ⟨c, hrun, hwaiting⟩ :=
    @runs_listen T _ stored (twoRequests command key value) ports ok hok' keystore
  obtain ⟨c₁, connection, connection', _, _, _, hrun, hclient, hserving, -⟩ :=
    hwaiting.accepted hrun hok hok' hconns (hrpcs 0 (by decide)) (hreadable 0) (hfits 0) hquit
  obtain ⟨c₂, hrun, hclient, hserving, -⟩ := hserving.again hrun hok rfl hclient
  obtain ⟨c₃, _, raw, now, hrun, hclient, hserving, -⟩ :=
    hserving.accepted hrun hok hok' hclient (hrpcs 1 (by decide)) (hreadable 1) (hfits 1) hquit
  exact ⟨c₃, connection, connection', raw, now, hrun, hclient, hserving⟩

/-- The client takes its leave, and the server waits for the next one. -/
theorem Net.Joined.leave {s : Net} {n : Nat} (hj : s.Joined n [] []) {e : Endpoint Keystore} :
    ((s.set .client ((s.hosts .client).close 4)).set .server
      (((s.hosts .server).after n e).close 5)).Rest (n + 1) := by
  have hserver := hj.conns .server
  obtain ⟨-, -, h3, h4, -, hconns, hunused, -, -⟩ := hj
  refine ⟨?_, ?_, ?_, fun side => ?_, fun side => ?_⟩
  · simp [Host.close, h3]
  · simp [Host.close, h4]
  · simp [Host.close]
  · cases side <;> simp [Host.close, hconns]
  · cases side with
    | client =>
      rw [Net.set_hosts_of_ne _ _ (by decide), Net.set_hosts_self]
      exact hunused .client
    | server =>
      rw [Net.set_hosts_self]
      exact (hunused .server).after (by omega)

/-- A client that has made all its requests exits, and the server waits for the next client. -/
theorem Serving.leave (h : Serving c n connection connection')
    (hrun : (net stored args ports).Runs ok c₀ c) (hok : ∀ c, ok .client c)
    (hok' : ∀ c, ok .server c) {i j : Nat} {rpcId : UInt32}
    (hclient : c.own .client = .ret (.request 3 i rpcId connection j))
    (hconns : args.nConns.toNat ≤ i + 1) (hrpcs : args.rpcsPerConn.toNat ≤ j) :
    ∃ c' : NetConfig T, (net stored args ports).Runs ok c₀ c' ∧ c'.own .client = .ret (.exited 0) ∧
      c'.own .server = .ret (.accept 3 4) ∧ c'.shared.Rest (n + 1) ∧
      c'.shared.keystore = c.shared.keystore := by
  obtain ⟨hfd, hserver, hfd', hj⟩ := h
  have hcloses := @exec_client_close c.shared connection stored args j i rpcId
    (c.shared.hosts .client) hrpcs (.connection n) (by rw [hfd]; exact hj.clientSock)
  rw [hfd, Net.set_self] at hcloses
  obtain ⟨c₁, hrun, hclient, hserver₁, hs₁⟩ := client_round hrun hok hclient rfl hcloses
  obtain ⟨c₂, hrun, hclient, hserver₂, hs₂⟩ :=
    client_round hrun hok hclient rfl (exec_client_exit hconns)
  have hs : c₂.shared = c.shared.set .client ((c.shared.hosts .client).close 4) := hs₂.trans hs₁
  have hhost : c₂.shared.hosts .server = c.shared.hosts .server := by simp [hs]
  have hall : (c₂.shared.hosts .server).got n = (c₂.shared.hosts .client).sent n := by
    rw [hhost, ← List.append_nil ((c.shared.hosts .server).got n), ← hj.requests, hs,
      Net.set_hosts_self]
    rfl
  have hclosed : (c₂.shared.hosts .client).closed n := by
    simp [hs, Host.close, hj.clientSock]
  obtain ⟨e, hends⟩ := @exec_listen_end c₂.shared connection' n (.ofNat args.port.toNat)
    (by rw [hfd']; decide) (by rw [hhost, hfd']; exact hj.serverSock)
    (by rw [hhost]; exact hj.serverLog) hall hclosed
  have hserving : c₂.own .server = .ret (.serve 3 4 connection') := by
    rw [hserver₂, hserver₁, hserver]
  obtain ⟨c₃, hrun, hserver₃, hclient₃, hs₃⟩ := server_round hrun hok' hserving rfl hends
  rw [hhost, hfd', hs] at hs₃
  refine ⟨c₃, hrun, hclient₃.trans hclient, hserver₃, ?_, by rw [hs₃]; rfl⟩
  rw [hs₃]
  exact hj.leave

end Runs

end SoftwareDynamics.Network

import SoftwareDynamics.Network.Opening
import SoftwareDynamics.Network.Endpoint

/-! What the server and the client each do on all of their connections, whatever the other side
sends: the server answers the requests it has got, in order, and the client waits for a response
after each of its requests. -/

namespace SoftwareDynamics.Network

open ProofKit Prog

section Connections

variable {κ : Type}

/-- One side and the store, as the program of that side sees them. -/
def hostEnv (ops : StoreOps κ) : Env SysOp SysOp.Result (Host × κ) where
  allows _ _ := True
  act v op r v' := v.1.act op r v'.1 ∧ ops.act v.2 op r v'.2

/-- A side after what its end of connection `n` has seen. -/
def Host.after (h : Host) (n : Nat) (e : Endpoint κ) : Host :=
  { h with
    got := Function.update h.got n (h.got n ++ e.got)
    sent := Function.update h.sent n (h.sent n ++ e.sent)
    clock := e.clock ++ h.clock }

variable {ops : StoreOps κ} {connection : Connection} {logFd : Fd} {h : Host} {n : Nat}
  {e : Endpoint κ} {I : Endpoint κ → Prop} {G : Host × κ → Prop}

@[simp] theorem Host.after_fresh (h : Host) (n : Nat) (k : κ) : h.after n (.fresh k) = h := by
  simp [after, Endpoint.fresh]

@[simp] theorem Host.after_files (h : Host) (n : Nat) (e : Endpoint κ) :
    (h.after n e).files = h.files := rfl

@[simp] theorem Host.after_conns (h : Host) (n : Nat) (e : Endpoint κ) :
    (h.after n e).conns = h.conns := rfl

@[simp] theorem Host.after_closed (h : Host) (n : Nat) (e : Endpoint κ) :
    (h.after n e).closed = h.closed := rfl

@[simp] theorem Host.after_got (h : Host) (n : Nat) (e : Endpoint κ) :
    (h.after n e).got n = h.got n ++ e.got := Function.update_self _ _ _

@[simp] theorem Host.after_sent (h : Host) (n : Nat) (e : Endpoint κ) :
    (h.after n e).sent n = h.sent n ++ e.sent := Function.update_self _ _ _

theorem Host.after_receive (h : Host) (n : Nat) (e : Endpoint κ) (chunk : Bytes) :
    (h.after n e).receive n chunk = h.after n (e.receive chunk) := by
  simp [after, receive, Endpoint.receive]

theorem Host.after_send (h : Host) (n : Nat) (e : Endpoint κ) (buf : Bytes) :
    (h.after n e).send n buf = h.after n (e.send buf) := by
  simp [after, send, Endpoint.send]

theorem Host.after_look (h : Host) (n : Nat) (e : Endpoint κ) (now : UInt64) :
    (h.after n e).look now = h.after n (e.look now) := by
  simp [after, look, Endpoint.look]

/-- What a program does at one end of a connection, it does on its side. -/
theorem host_simulates (hsock : h.files connection.sockFd = some (.connection n))
    (hlog : h.files logFd = some .log) (hG : ∀ e, I e → G (h.after n e, e.store)) :
    (watched connection logFd ops I).Simulates ((hostEnv ops).watch G)
      fun e v => v = (h.after n e, e.store) := by
  rintro e v op rfl ⟨hI, hallows⟩
  refine ⟨⟨hG e hI, trivial⟩, fun r ⟨h', k'⟩ hr => ?_⟩
  obtain ⟨hact, hstore⟩ := hr
  have hfiles : (h.after n e).files = h.files := rfl
  cases op with
  | read fd count =>
    obtain ⟨rfl, -⟩ := hallows
    cases r with
    | none => exact hact.elim
    | some chunk =>
      obtain ⟨m, hm, rfl⟩ := hact
      obtain rfl : k' = e.store := hstore
      rw [hfiles, hsock] at hm
      cases hm
      exact ⟨e.receive chunk.1, ⟨rfl, trivial, rfl⟩, by rw [Host.after_receive]; rfl⟩
  | write fd buf =>
    obtain ⟨rfl, hwrite⟩ := hact
    obtain rfl : k' = e.store := hstore
    rw [hfiles] at hwrite
    rcases hallows with rfl | rfl
    · rw [hsock] at hwrite
      obtain ⟨m, hm, rfl⟩ :
          ∃ m, File.connection n = .connection m ∧ h' = (h.after n e).send m buf :=
        by simpa using hwrite
      cases hm
      exact ⟨e.send buf, ⟨rfl, by rw [if_pos rfl]⟩, by rw [Host.after_send]; rfl⟩
    · rw [hlog] at hwrite
      obtain rfl : h' = h.after n e := by simpa using hwrite
      have hne : fd ≠ connection.sockFd := by
        rintro heq
        rw [heq, hsock] at hlog
        cases hlog
      exact ⟨e, ⟨rfl, by rw [if_neg hne]⟩, rfl⟩
  | gettimeofday =>
    cases r with
    | none => exact hact.elim
    | some now =>
      obtain rfl : k' = e.store := hstore
      obtain rfl : h' = (h.after n e).look now.usec := hact
      exact ⟨e.look now.usec, rfl, by rw [Host.after_look]; rfl⟩
  | malloc size =>
    obtain ⟨rfl, rfl⟩ := hact
    obtain rfl : k' = e.store := hstore
    exact ⟨e, ⟨rfl, rfl⟩, rfl⟩
  | indeterminate size =>
    obtain rfl : h' = h.after n e := hact
    obtain rfl : k' = e.store := hstore
    exact ⟨e, rfl, rfl⟩
  | emplace key value =>
    obtain rfl : h' = h.after n e := hact
    exact ⟨{ e with store := k' }, ⟨k', hstore, rfl⟩, rfl⟩
  | find key =>
    obtain rfl : h' = h.after n e := hact
    exact ⟨{ e with store := k' }, ⟨k', hstore, rfl⟩, rfl⟩
  | _ => exact hallows.elim

/-- What a program does where anything may arrive, it does at one end of a connection of its
side. -/
theorem wp_connection {α : Type} {p : Sys α} {Q : α → Endpoint κ → Prop} {k : κ}
    (hsock : h.files connection.sockFd = some (.connection n)) (hlog : h.files logFd = some .log)
    (hG : ∀ e, I e → G (h.after n e, e.store))
    (hp : wp (watched connection logFd ops I) p Q (.fresh k)) :
    wp ((hostEnv ops).watch G) p (fun a v => ∃ e, v = (h.after n e, e.store) ∧ Q a e) (h, k) :=
  (host_simulates hsock hlog hG).wp hp (by rw [Host.after_fresh]; rfl)

end Connections

section Server

/-- A request that was handled on a connection, and the response to it. -/
structure Exchange where
  conn : Nat
  request : Frame
  response : Frame

/-- The exchanges on one connection. -/
def onConn (xs : List Exchange) (n : Nat) : List Exchange := xs.filter (·.conn = n)

variable {κ : Type}

/-- Exchanges, in the order in which they were handled, and the store that they leave. -/
inductive Chain (ops : StoreOps κ) (k₀ : κ) : List Exchange → κ → Prop
  | start : Chain ops k₀ [] k₀
  | handle {xs : List Exchange} {x : Exchange} {k k' : κ} : Chain ops k₀ xs k →
      Handles ops k x.request x.response.header.status x.response.data k' →
      x.response.Answers x.request → Chain ops k₀ (xs ++ [x]) k'

/-- All requests of the exchanges have been got, one connection after the other, and nothing but
their responses has been sent. -/
structure Correlated (ops : StoreOps κ) (k₀ : κ) (xs : List Exchange) (v : Host × κ) : Prop where
  chain : Chain ops k₀ xs v.2
  ordered : xs.Pairwise fun x y => x.conn ≤ y.conn
  opened : ∀ x ∈ xs, x.conn < v.1.conns
  got : ∀ n, Frame.stream ((onConn xs n).map Exchange.request) <+: v.1.got n
  sent : ∀ n, v.1.sent n <+: Frame.stream ((onConn xs n).map Exchange.response)
  timed : ∀ x ∈ xs, Timed v.1.clock x.response

/-- The connections from `conns` on have not been used. -/
def Host.Unused (h : Host) : Prop := ∀ n, h.conns ≤ n → h.got n = [] ∧ h.sent n = []

variable {ops : StoreOps κ} {k₀ : κ} {xs : List Exchange} {h : Host} {k : κ} {n : Nat}
  {e : Endpoint κ} {clock more : List UInt64} {response : Frame}

theorem Timed.after (ht : Timed clock response) : Timed (more ++ clock) response :=
  fun hsorted => ht (List.pairwise_append.mp hsorted).2.1

theorem Timed.before (ht : Timed more response) : Timed (more ++ clock) response :=
  fun hsorted => ht (List.pairwise_append.mp hsorted).1

@[simp] theorem onConn_append (xs ys : List Exchange) (m : Nat) :
    onConn (xs ++ ys) m = onConn xs m ++ onConn ys m := List.filter_append xs ys

@[simp] theorem onConn_singleton (x : Exchange) (m : Nat) :
    onConn [x] m = if x.conn = m then [x] else [] := by
  rw [onConn, List.filter_singleton]
  by_cases hx : x.conn = m <;> simp [hx]

/-- A side of a connection on which all requests have been answered, and nothing else sent. -/
structure UpToDate (xs : List Exchange) (h : Host) (n : Nat) : Prop where
  got : h.got n = Frame.stream ((onConn xs n).map Exchange.request)
  sent : h.sent n = Frame.stream ((onConn xs n).map Exchange.response)

/-- What happens on a connection that has been opened does not matter to the later ones. -/
theorem Host.Unused.after (hunused : h.Unused) (hn : n < h.conns) : (h.after n e).Unused := by
  intro m hm
  have hmn : m ≠ n := Nat.ne_of_gt (Nat.lt_of_lt_of_le hn hm)
  simpa [Host.after, hmn] using hunused m hm

/-- A round of serving a connection that has not answered yet. -/
theorem Correlated.silent (hc : Correlated ops k₀ xs (h, k)) (hsent : e.sent = [])
    (hstore : e.store = k) : Correlated ops k₀ xs (h.after n e, e.store) where
  chain := hstore ▸ hc.chain
  ordered := hc.ordered
  opened := hc.opened
  got m := by
    by_cases hm : m = n
    · subst hm
      simpa [Host.after] using (hc.got m).trans (List.prefix_append _ _)
    · simpa [Host.after, hm] using hc.got m
  sent m := by
    by_cases hm : m = n
    · subst hm
      simpa [Host.after, hsent] using hc.sent m
    · simpa [Host.after, hm] using hc.sent m
  timed x hx := (hc.timed x hx).after

/-- A round of serving a connection that is answering a request. -/
theorem Correlated.answering (hc : Correlated ops k₀ xs (h, k)) (hn : UpToDate xs h n)
    (hlast : n + 1 = h.conns) {request : Frame} (hgot : e.got = request.toBytes)
    (hsent : e.sent <+: response.toBytes)
    (hhandles : Handles ops k request response.header.status response.data e.store)
    (hanswers : response.Answers request) (ht : Timed e.clock response) :
    Correlated ops k₀ (xs ++ [⟨n, request, response⟩]) (h.after n e, e.store) where
  chain := .handle hc.chain hhandles hanswers
  ordered := by
    refine List.pairwise_append.mpr ⟨hc.ordered, List.pairwise_singleton _ _, fun x hx y hy => ?_⟩
    have hopened : x.conn < h.conns := hc.opened x hx
    rw [List.mem_singleton.mp hy]
    exact Nat.le_of_lt_succ (Nat.lt_of_lt_of_eq hopened hlast.symm)
  opened x hx := by
    rcases List.mem_append.mp hx with hx | hx
    · exact hc.opened x hx
    · rw [List.mem_singleton.mp hx]
      exact Nat.lt_of_succ_le (Nat.le_of_eq hlast)
  got m := by
    by_cases hm : m = n
    · subst hm
      simp [Host.after, hn.got, hgot]
    · simpa [Host.after, hm, Ne.symm hm] using hc.got m
  sent m := by
    by_cases hm : m = n
    · subst hm
      simpa [Host.after, hn.sent] using hsent
    · simpa [Host.after, hm, Ne.symm hm] using hc.sent m
  timed x hx := by
    rcases List.mem_append.mp hx with hx | hx
    · exact (hc.timed x hx).after
    · rw [List.mem_singleton.mp hx]
      exact ht.before

theorem Round.correlated (hr : Round ops k e) (hc : Correlated ops k₀ xs (h, k))
    (hn : UpToDate xs h n) (hlast : n + 1 = h.conns) :
    ∃ xs, Correlated ops k₀ xs (h.after n e, e.store) := by
  rcases hr with ⟨hsent, hstore⟩ | ⟨request, response, hgot, hsent, hhandles, hanswers, ht⟩
  · exact ⟨xs, hc.silent hsent hstore⟩
  · exact ⟨_, hc.answering hn hlast hgot hsent hhandles hanswers ht⟩

theorem Outcome.correlated {action : Option RpcAction} (ho : Outcome ops k action e)
    (hc : Correlated ops k₀ xs (h, k)) (hn : UpToDate xs h n) (hlast : n + 1 = h.conns) :
    ∃ xs, Correlated ops k₀ xs (h.after n e, e.store) ∧
      (action = none → UpToDate xs (h.after n e) n) := by
  cases ho with
  | ended hsent hstore => exact ⟨xs, hc.silent hsent hstore, nofun⟩
  | rejected hsent hstore => exact ⟨xs, hc.silent hsent hstore, nofun⟩
  | unknown hsent hstore => exact ⟨xs, hc.silent hsent hstore, nofun⟩
  | @answered _ request response _ hgot hsent hhandles hanswers ht =>
    refine ⟨_, hc.answering hn hlast hgot (hsent ▸ List.prefix_refl _) hhandles hanswers ht,
      fun _ => ?_⟩
    exact ⟨by simp [Host.after, hn.got, hgot], by simp [Host.after, hn.sent, hsent]⟩

/-- What has been got and sent does not depend on the descriptors. -/
theorem Correlated.of_eq {h' : Host} (hc : Correlated ops k₀ xs (h, k)) (hgot : h'.got = h.got)
    (hsent : h'.sent = h.sent) (hclock : h'.clock = h.clock) (hconns : h.conns ≤ h'.conns) :
    Correlated ops k₀ xs (h', k) where
  chain := hc.chain
  ordered := hc.ordered
  opened x hx := Nat.lt_of_lt_of_le (hc.opened x hx) hconns
  got n := hgot ▸ hc.got n
  sent n := hsent ▸ hc.sent n
  timed x hx := hclock ▸ hc.timed x hx

/-- Nothing has happened on a connection that has not been used. -/
theorem Correlated.upToDate (hc : Correlated ops k₀ xs (h, k)) (hn : h.got n = [] ∧ h.sent n = []) :
    UpToDate xs h n := by
  have hgot := hc.got n
  rw [hn.1] at hgot
  have hempty := Frame.stream_eq_nil (List.prefix_nil.mp hgot)
  rw [List.map_eq_nil_iff] at hempty
  exact ⟨by rw [hempty, hn.1]; rfl, by rw [hempty, hn.2]; rfl⟩

/-- The server, where what it has sent is watched. -/
def watchedServer (ops : StoreOps κ) (k₀ : κ) : Env SysOp SysOp.Result (Host × κ) :=
  (hostEnv ops).watch fun v => ∃ xs, Correlated ops k₀ xs v

/-- What holds at the control points of a listener thread. -/
inductive ServerAt (ops : StoreOps κ) (k₀ : κ) : ListenPc → Host × κ → Prop
  | start {h : Host} {k : κ} {xs : List Exchange} : h.Unused → Correlated ops k₀ xs (h, k) →
      ServerAt ops k₀ .start (h, k)
  | accept {listenSockFd logFd : Fd} {h : Host} {k : κ} {xs : List Exchange} :
      h.files listenSockFd = some .socket → h.files logFd = some .log → h.Unused →
      Correlated ops k₀ xs (h, k) → ServerAt ops k₀ (.accept listenSockFd logFd) (h, k)
  | serve {listenSockFd logFd : Fd} {connection : Connection} {h : Host} {k : κ} {n : Nat}
      {xs : List Exchange} :
      h.files listenSockFd = some .socket → h.files logFd = some .log → h.Unused →
      h.files connection.sockFd = some (.connection n) → n + 1 = h.conns →
      Correlated ops k₀ xs (h, k) → UpToDate xs h n →
      ServerAt ops k₀ (.serve listenSockFd logFd connection) (h, k)
  | left {pc : ListenPc} {h : Host} {k : κ} {xs : List Exchange} : pc.left →
      Correlated ops k₀ xs (h, k) → ServerAt ops k₀ pc (h, k)

theorem ServerAt.correlated {pc : ListenPc} {v : Host × κ} (hs : ServerAt ops k₀ pc v) :
    ∃ xs, Correlated ops k₀ xs v := by
  cases hs with
  | start _ hc => exact ⟨_, hc⟩
  | accept _ _ _ hc => exact ⟨_, hc⟩
  | serve _ _ _ _ _ hc => exact ⟨_, hc⟩
  | left _ hc => exact ⟨_, hc⟩

theorem wp_server {op : SysOp} {Q : op.Result → Host × κ → Prop} (hc : Correlated ops k₀ xs (h, k))
    (hQ : ∀ r h' k', h.act op r h' → ops.act k op r k' → Q r (h', k')) :
    wp (watchedServer ops k₀) (sys op) Q (h, k) :=
  ⟨⟨⟨xs, hc⟩, trivial⟩, fun r v hr => hQ r v.1 v.2 hr.1 hr.2⟩

theorem wp_server_tcpListen {port : UInt16} {backlog : Int32}
    {Q : Except Errno Fd → Host × κ → Prop}
    (hc : Correlated ops k₀ xs (h, k))
    (hQ : ∀ fd, h.files fd = none → Q (.ok fd) (h.openFile fd .socket, k)) :
    wp (watchedServer ops k₀) (tcpListen port backlog) Q (h, k) := by
  refine wp_listens Prod.fst (fun v => v.2 = k) (fun v op hcalls hk => ?_) rfl
    fun fd v hfree hview hk => ?_
  · obtain ⟨h₁, k₁⟩ := v
    obtain rfl : k₁ = k := hk
    have hc₁ : Correlated ops k₀ xs (h₁, k₁) := by
      cases hcalls <;> exact hc.of_eq rfl rfl rfl (Nat.le_refl _)
    refine wp_server hc₁ fun r h' k' hact hstore => ⟨hact, ?_⟩
    cases hcalls <;> exact hstore
  · obtain ⟨h₁, k₁⟩ := v
    obtain rfl : h₁ = h.openFile fd .socket := hview
    obtain rfl : k₁ = k := hk
    exact hQ fd hfree

theorem wp_server_tcpAccept {fd : Fd} {connection : Connection}
    {Q : Except Errno Unit × Connection → Host × κ → Prop} (hc : Correlated ops k₀ xs (h, k))
    (hQ : ∀ connection : Connection, h.files connection.sockFd = none →
      Q (.ok (), connection) (h.connect connection.sockFd, k)) :
    wp (watchedServer ops k₀) (tcpAccept fd connection) Q (h, k) := by
  refine wp_accepts Prod.fst (fun v => v.2 = k) (fun v op hcalls hk => ?_) rfl
    fun connection v hfree hview hk => ?_
  · obtain ⟨h₁, k₁⟩ := v
    obtain rfl : k₁ = k := hk
    have hc₁ : Correlated ops k₀ xs (h₁, k₁) := by
      cases hcalls with
      | accept => exact hc
      | getsockname => exact hc.of_eq rfl rfl rfl (Nat.le_succ _)
    refine wp_server hc₁ fun r h' k' hact hstore => ⟨hact, ?_⟩
    cases hcalls <;> exact hstore
  · obtain ⟨h₁, k₁⟩ := v
    obtain rfl : h₁ = h.connect connection.sockFd := hview
    obtain rfl : k₁ = k := hk
    exact hQ connection hfree

theorem wp_listen_start {port : Int32} (hunused : h.Unused) (hc : Correlated ops k₀ xs (h, k)) :
    wp (watchedServer ops k₀) (listenCode port .start) (ServerAt ops k₀) (h, k) := by
  rw [listenCode, wp_bind]
  refine wp_server_tcpListen hc fun fd _ => ?_
  have hc : Correlated ops k₀ xs (h.openFile fd .socket, k) := hc.of_eq rfl rfl rfl (Nat.le_refl _)
  dsimp only
  rw [wp_bind]
  refine wp_server hc fun r h' k' hact hstore => ?_
  obtain rfl : k' = k := hstore
  rcases r with _ | logFd
  · exact hact.elim
  obtain ⟨hnew, rfl⟩ := hact
  have hne : fd ≠ logFd := by
    rintro rfl
    simp [Host.openFile] at hnew
  refine .accept ?_ ?_ hunused (hc.of_eq rfl rfl rfl (Nat.le_refl _))
  · simp [Host.openFile, hne]
  · simp [Host.openFile]

theorem wp_listen_accept {port : Int32} {listenSockFd logFd : Fd}
    (hlisten : h.files listenSockFd = some .socket) (hlog : h.files logFd = some .log)
    (hunused : h.Unused) (hc : Correlated ops k₀ xs (h, k)) :
    wp (watchedServer ops k₀) (listenCode port (.accept listenSockFd logFd)) (ServerAt ops k₀)
      (h, k) := by
  rw [listenCode, wp_bind, uninitConnection, wp_map]
  refine wp_server hc fun r h' k' hact hstore => ?_
  obtain rfl : k' = k := hstore
  obtain rfl : h' = h := hact
  rw [wp_bind]
  refine wp_server_tcpAccept hc fun connection hnew => ?_
  have hne {fd : Fd} {file : File} (hfd : h'.files fd = some file) : fd ≠ connection.sockFd :=
    Host.fd_ne hfd hnew (Option.some_ne_none _)
  refine .serve ?_ ?_ (fun n hn => hunused n (Nat.le_of_succ_le hn)) ?_ rfl
    (hc.of_eq rfl rfl rfl (Nat.le_succ _)) ?_
  · simp [Host.connect, Host.openFile, hne hlisten, hlisten]
  · simp [Host.connect, Host.openFile, hne hlog, hlog]
  · simp [Host.connect, Host.openFile]
  · obtain ⟨hgot, hsent⟩ := hc.upToDate (hunused h'.conns (Nat.le_refl _))
    exact ⟨hgot, hsent⟩

theorem wp_listen_serve {port : Int32} {listenSockFd logFd : Fd} {connection : Connection}
    (hlisten : h.files listenSockFd = some .socket) (hlog : h.files logFd = some .log)
    (hunused : h.Unused) (hsock : h.files connection.sockFd = some (.connection n))
    (hlast : n + 1 = h.conns) (hc : Correlated ops k₀ xs (h, k)) (hup : UpToDate xs h n) :
    wp (watchedServer ops k₀) (listenCode port (.serve listenSockFd logFd connection))
      (ServerAt ops k₀) (h, k) := by
  have hne {fd : Fd} {file : File} (hfd : h.files fd = some file) (hfile : file ≠ .connection n) :
      fd ≠ connection.sockFd := Host.fd_ne hfd hsock (mt Option.some.inj hfile)
  rw [listenCode, wp_bind]
  refine wp_mono (wp_connection hsock hlog (fun e he => he.correlated hc hup hlast)
    (wp_serveMessage (hne hlog nofun))) ?_
  rintro action _ ⟨e, rfl, houtcome⟩
  have hunused' : (h.after n e).Unused := hunused.after (Nat.lt_of_succ_le (Nat.le_of_eq hlast))
  obtain ⟨xs, hc, hup⟩ := houtcome.correlated hc hup hlast
  cases action with
  | none => exact .serve hlisten hlog hunused' hsock hlast hc (hup rfl)
  | some action =>
    dsimp only
    rw [wp_bind]
    refine wp_server hc fun r h' k' hact hstore => ?_
    obtain rfl : k' = e.store := hstore
    obtain ⟨rfl, -, rfl⟩ := hact
    have hc : Correlated ops k₀ xs ((h.after n e).close connection.sockFd, e.store) :=
      hc.of_eq rfl rfl rfl (Nat.le_refl _)
    cases action with
    | CONTINUE =>
      refine .accept ?_ ?_ hunused' hc
      · simp [Host.close, Host.after, hne hlisten nofun, hlisten]
      · simp [Host.close, Host.after, hne hlog nofun, hlog]
    | QUIT => exact .left rfl hc

/-- What a listener thread has got and sent stays correlated, in each round of its code. -/
theorem ServerAt.wp_listenCode {port : Int32} {pc : ListenPc} {v : Host × κ}
    (hs : ServerAt ops k₀ pc v) (hgo : pc.over = false) :
    wp (watchedServer ops k₀) (listenCode port pc) (ServerAt ops k₀) v := by
  cases hs with
  | start hunused hc => exact wp_listen_start hunused hc
  | accept hlisten hlog hunused hc => exact wp_listen_accept hlisten hlog hunused hc
  | serve hlisten hlog hunused hsock hlast hc hup =>
    exact wp_listen_serve hlisten hlog hunused hsock hlast hc hup
  | @left _ h k xs hleft hc =>
    cases pc with
    | closing listenSockFd logFd =>
      rw [listenCode, wp_bind]
      refine wp_server hc fun r h' k' hact hstore => ?_
      obtain rfl : k' = k := hstore
      obtain ⟨rfl, -, rfl⟩ := hact
      have hc : Correlated ops k₀ xs (h.close listenSockFd, k') :=
        hc.of_eq rfl rfl rfl (Nat.le_refl _)
      rw [wp_bind]
      refine wp_server hc fun r h' k'' hact hstore => ?_
      obtain rfl : k'' = k' := hstore
      obtain ⟨rfl, -, rfl⟩ := hact
      exact .left rfl (hc.of_eq rfl rfl rfl (Nat.le_refl _))
    | returned => cases hgo
    | exited => cases hgo
    | _ => cases hleft

end Server

end SoftwareDynamics.Network

import SoftwareDynamics.Network.Dialogue

/-! The client on all of its connections: it sends one request after the other, and waits for a
response after each of them. -/

namespace SoftwareDynamics.Network

open ProofKit Prog

section Requests

/-- What the body of the request number `j` may be. -/
def Args.Body (args : Args) (j : Nat) (body : Bytes) : Prop :=
  let key := genStrDirect args.keyConfig j
  let value := genStrDirect args.valueConfig j
  match args.command with
  | .Ping => body = value
  | .Quit => body = []
  | .Write => ∃ pad, body =
    WriteRequest.layout pad key (.ofNat key.length) value (.ofNat value.length)
  | .Read => body = key

/-- The body of the request number `j` is short enough to be sent. -/
def Args.Fits (args : Args) (j : Nat) : Prop :=
  let key := genStrDirect args.keyConfig j
  let value := genStrDirect args.valueConfig j
  match args.command with
  | .Ping => value.length < 2 ^ 32
  | .Quit => True
  | .Write => value.length ≤ 5 * 256 * 1024
  | .Read => key.length < 2 ^ 32

/-- A frame is the request number `j` of a connection. -/
def Args.Asks (args : Args) (connection : Connection) (j : Nat) (rpcId : UInt32)
    (request : Frame) : Prop :=
  ∃ body, args.Body j body ∧ request.Requests connection body 0 args.commandStr rpcId

theorem Args.Asks.methodName {args : Args} {connection : Connection} {j : Nat} {rpcId : UInt32}
    {request : Frame} (h : args.Asks connection j rpcId request) :
    request.methodName = args.command.str := by
  obtain ⟨body, -, hrequest⟩ := h
  have hmethod : request.header.method = .fit 8 args.command.str := by
    rw [hrequest.header, args.commandStr_eq]
  rw [Frame.methodName, hmethod]
  cases args.command <;> decide

theorem WriteRequest.layout_length {pad : Octets 3} {key value : Bytes}
    (hvalue : value.length < 2 ^ 32) :
    (layout pad key (.ofNat key.length) value (.ofNat value.length)).length =
      size + key.length % 2 ^ 8 + value.length := by
  have hkey := Nat.mod_le key.length (2 ^ 8)
  simp only [layout, List.length_append, List.length_cons, pad.2, beBytes_length, List.length_take,
    UInt8.toNat_ofNat', UInt32.toNat_ofNat_of_lt' hvalue, size]
  omega

end Requests

section Client

variable {stored : Bool} {args : Args} {h : Host} {n : Nat}

theorem wp_client {op : SysOp} {Q : op.Result → Host × Unit → Prop}
    (hQ : ∀ r h', h.act op r h' → Q r (h', ())) : wp (hostEnv .shared) (sys op) Q (h, ()) :=
  ⟨trivial, fun r v hr => hQ r v.1 hr.1⟩

/-- The body of a request is as it should be, or cannot be read. -/
theorem wp_requestBody {σ : Type} {env : Env SysOp SysOp.Result σ} {s : σ} {j : Nat}
    {Q : Option Body → σ → Prop} (hfits : args.Fits j)
    (hlooks : env.allows s (.indeterminate 3) ∧
      ∀ bs s', env.act s (.indeterminate 3) bs s' → s' = s)
    (hQ : args.Readable stored j → ∀ body : Bytes, args.Body j body → body.length < 2 ^ 32 →
      Q (some body) s)
    (hnull : ¬args.Readable stored j → ∀ n, n + 1 < 2 ^ 32 → Q (some (.null n)) s) :
    wp env (requestBody stored args j) Q s := by
  unfold Args.Fits at hfits
  unfold Args.Body at hQ
  unfold Args.Readable at hQ hnull
  unfold requestBody
  have cast {data : Bytes} (hdata : data.length < 2 ^ 32)
      (hread : stored = true ∨ data = [] → Q (some data) s)
      (hnull : ¬(stored = true ∨ data = []) → ∀ n, n + 1 < 2 ^ 32 → Q (some (.null n)) s) :
      Q (some (castBody stored data)) s := by
    by_cases hstored : stored = true ∨ data = []
    · rw [castBody_eq hstored]
      exact hread hstored
    · obtain ⟨n, hbody, hlength⟩ := castBody_eq_null hstored
      rw [hbody]
      exact hnull hstored n (hlength ▸ hdata)
  cases hcommand : args.command with
  | Ping =>
    simp only [hcommand] at hfits hQ hnull
    exact cast hfits (fun hstored => hQ hstored _ rfl hfits) hnull
  | Quit =>
    simp only [hcommand] at hQ
    exact hQ trivial [] rfl (Nat.two_pow_pos 32)
  | Read =>
    simp only [hcommand] at hfits hQ hnull
    exact cast hfits (fun hstored => hQ hstored _ rfl hfits) hnull
  | Write =>
    simp only [hcommand] at hfits hQ
    have hvalue : (genStrDirect args.valueConfig j).length < 2 ^ 32 := by omega
    have hshort : ¬ UInt32.ofNat (genStrDirect args.valueConfig j).length > 5 * 256 * 1024 := by
      rw [gt_iff_lt, UInt32.lt_iff_toNat_lt, UInt32.toNat_ofNat_of_lt' hvalue, Nat.not_lt]
      exact hfits
    simp only [WriteRequest.make, hshort, if_false]
    rw [wp_map, wp_bind]
    refine ⟨hlooks.1, fun pad s' hact => ?_⟩
    obtain rfl := hlooks.2 pad s' hact
    refine hQ trivial _ ⟨pad, rfl⟩ ?_
    rw [WriteRequest.layout_length hvalue, WriteRequest.size]
    omega

theorem wp_requestBody_readable {σ : Type} {env : Env SysOp SysOp.Result σ} {s : σ} {j : Nat}
    {Q : Option Body → σ → Prop} (hreadable : args.Readable stored j) (hfits : args.Fits j)
    (hlooks : env.allows s (.indeterminate 3) ∧
      ∀ bs s', env.act s (.indeterminate 3) bs s' → s' = s)
    (hQ : ∀ body : Bytes, args.Body j body → body.length < 2 ^ 32 → Q (some body) s) :
    wp env (requestBody stored args j) Q s :=
  wp_requestBody hfits hlooks (fun _ => hQ) fun hunreadable => absurd hreadable hunreadable

/-- As many responses have been got as requests have been sent, at most. -/
def Host.Answered (h : Host) : Prop :=
  ∀ n, ∃ requests responses : List Frame, responses.length = requests.length ∧
    Frame.stream requests <+: h.sent n ∧ h.got n <+: Frame.stream responses

/-- The exchanges of a client, of which the last ones, `zs`, are its own, and the first ones have
been there before. -/
structure Called (args : Args) (c₀ : Nat) (ys zs : List Exchange) (h : Host) : Prop where
  asks : ∀ z ∈ zs, ∃ connection j rpcId, args.Asks connection j rpcId z.request
  later : ∀ z ∈ zs, c₀ ≤ z.conn
  opened : ∀ y ∈ ys ++ zs, y.conn < h.conns
  sent : ∀ n, h.sent n = Frame.stream ((onConn (ys ++ zs) n).map Exchange.request)
  got : ∀ n, h.got n = Frame.stream ((onConn (ys ++ zs) n).map Exchange.response)

/-- A client that may open its next connection. -/
structure Ready (args : Args) (c₀ : Nat) (ys zs : List Exchange) (logFd : Fd) (h : Host) :
    Prop where
  opened : c₀ ≤ h.conns
  log : h.files logFd = some .log
  called : Called args c₀ ys zs h

/-- A client with a connection. -/
structure Connected (args : Args) (c₀ : Nat) (ys zs : List Exchange) (logFd : Fd)
    (connection : Connection) (n : Nat) (h : Host) : Prop extends
    Ready args c₀ ys zs logFd h where
  sock : h.files connection.sockFd = some (.connection n)
  later : c₀ ≤ n
  last : n < h.conns

/-- The last exchange of a client, and the time at which its response was received. -/
structure Accepted (stored : Bool) (args : Args) (h : Host) (nextRpcId : UInt32)
    (connection : Connection) (j : Nat) (last : Exchange) (now : UInt64) : Prop where
  readable : args.Readable stored j
  asks : ∃ rpcId, nextRpcId = rpcId + 1 ∧ args.Asks connection j rpcId last.request
  timed : h.clock.Pairwise (· ≥ ·) → last.request.header.reqSendTimeUs ≤ now

/-- What holds at the control points of a client that has opened `c₀` connections before and has
made the exchanges `ys` on them. -/
inductive ClientAt (stored : Bool) (args : Args) (c₀ : Nat) (ys : List Exchange) :
    ClientPc → Host × Unit → Prop
  | start {h : Host} : c₀ ≤ h.conns → Called args c₀ ys [] h →
      ClientAt stored args c₀ ys .start (h, ())
  | connect {logFd : Fd} {i : Nat} {nextRpcId : UInt32} {h : Host} {zs : List Exchange} :
      Ready args c₀ ys zs logFd h → i ≤ args.nConns.toNat →
      zs.length = i * args.rpcsPerConn.toNat →
      ClientAt stored args c₀ ys (.connect logFd i nextRpcId) (h, ())
  | request {logFd : Fd} {i : Nat} {nextRpcId : UInt32} {connection : Connection} {j n : Nat}
      {h : Host} {zs : List Exchange} : Connected args c₀ ys zs logFd connection n h →
      i < args.nConns.toNat → j ≤ args.rpcsPerConn.toNat →
      zs.length = i * args.rpcsPerConn.toNat + j →
      ClientAt stored args c₀ ys (.request logFd i nextRpcId connection j) (h, ())
  | accepted {logFd : Fd} {i : Nat} {nextRpcId : UInt32} {connection : Connection} {j n : Nat}
      {request raw : Frame} {h : Host} {zs : List Exchange} {now : UInt64} :
      Connected args c₀ ys (zs ++ [⟨n, request, raw⟩]) logFd connection n h →
      i < args.nConns.toNat → j < args.rpcsPerConn.toNat →
      zs.length = i * args.rpcsPerConn.toNat + j →
      Accepted stored args h nextRpcId connection j ⟨n, request, raw⟩ now →
      ClientAt stored args c₀ ys
        (.accepted logFd i nextRpcId connection j (raw.resReceived now)) (h, ())
  | wait {logFd : Fd} {i : Nat} {nextRpcId : UInt32} {connection : Connection} {j n : Nat}
      {response : Frame} {h : Host} {zs : List Exchange} :
      Connected args c₀ ys zs logFd connection n h →
      i < args.nConns.toNat → j < args.rpcsPerConn.toNat →
      zs.length = i * args.rpcsPerConn.toNat + (j + 1) →
      ClientAt stored args c₀ ys (.wait logFd i nextRpcId connection j response) (h, ())
  | exited {h : Host} {zs : List Exchange} : Called args c₀ ys zs h →
      zs.length = args.nConns.toNat * args.rpcsPerConn.toNat →
      ClientAt stored args c₀ ys (.exited 0) (h, ())
  | stopped {pc : ClientPc} {v : Host × Unit} : pc.over → pc ≠ .exited 0 →
      ClientAt stored args c₀ ys pc v

variable {c₀ i j : Nat} {ys zs : List Exchange} {logFd : Fd} {connection : Connection}
  {nextRpcId : UInt32} {e : Endpoint Unit}

theorem Called.of_eq {h' : Host} (hc : Called args c₀ ys zs h) (hgot : h'.got = h.got)
    (hsent : h'.sent = h.sent) (hconns : h.conns ≤ h'.conns) : Called args c₀ ys zs h' where
  asks := hc.asks
  later := hc.later
  opened y hy := Nat.lt_of_lt_of_le (hc.opened y hy) hconns
  sent n := hsent ▸ hc.sent n
  got n := hgot ▸ hc.got n

theorem Connected.silent (hc : Connected args c₀ ys zs logFd connection n h) (hgot : e.got = [])
    (hsent : e.sent = []) : Connected args c₀ ys zs logFd connection n (h.after n e) where
  opened := hc.opened
  log := hc.log
  called := hc.called.of_eq (by simp [Host.after, hgot]) (by simp [Host.after, hsent])
    (Nat.le_refl _)
  sock := hc.sock
  later := hc.later
  last := hc.last

/-- A client has sent a request, and got a frame back. -/
theorem Connected.exchange (hc : Connected args c₀ ys zs logFd connection n h)
    {request response : Frame} (hgot : e.got = response.toBytes) (hsent : e.sent = request.toBytes)
    {rpcId : UInt32} (hasks : args.Asks connection j rpcId request) :
    Connected args c₀ ys (zs ++ [⟨n, request, response⟩]) logFd connection n (h.after n e) where
  opened := hc.opened
  log := hc.log
  sock := hc.sock
  later := hc.later
  last := hc.last
  called := {
    asks := by
      intro z hz
      rcases List.mem_append.mp hz with hz | hz
      · exact hc.called.asks z hz
      · rw [List.mem_singleton.mp hz]
        exact ⟨connection, j, rpcId, hasks⟩
    later := by
      intro z hz
      rcases List.mem_append.mp hz with hz | hz
      · exact hc.called.later z hz
      · rw [List.mem_singleton.mp hz]
        exact hc.later
    opened := by
      intro y hy
      rw [← List.append_assoc] at hy
      rcases List.mem_append.mp hy with hy | hy
      · exact hc.called.opened y hy
      · rw [List.mem_singleton.mp hy]
        exact hc.last
    sent := by
      intro m
      have hs := hc.called.sent m
      by_cases hm : m = n
      · subst hm
        simp [Host.after, hsent, hs]
      · simpa [Host.after, hm, Ne.symm hm] using hs
    got := by
      intro m
      have hg := hc.called.got m
      by_cases hm : m = n
      · subst hm
        simp [Host.after, hgot, hg]
      · simpa [Host.after, hm, Ne.symm hm] using hg }

/-- What a program does at one end of a connection, a client does that has this connection. -/
theorem Connected.wp {α : Type} {p : Sys α} {Q : α → Endpoint Unit → Prop}
    (hc : Connected args c₀ ys zs logFd connection n h)
    (hp : logFd ≠ connection.sockFd →
      Prog.wp (watched connection logFd .shared fun _ => True) p Q (.fresh ())) :
    Prog.wp (hostEnv .shared) p (fun a v => ∃ e, v = (h.after n e, ()) ∧ Q a e) (h, ()) := by
  have hne : logFd ≠ connection.sockFd := by
    intro heq
    have hlog := hc.log
    rw [heq, hc.sock] at hlog
    cases hlog
  exact Env.wp_of_watch
    (wp_connection (G := fun _ => True) hc.sock hc.log (fun _ _ => trivial) (hp hne))

/-- How a client goes on from the request number `j` of a connection. -/
inductive Exchanged (args : Args) (logFd : Fd) (i : Nat) (nextRpcId : UInt32)
    (connection : Connection) (j : Nat) : ClientPc → Endpoint Unit → Prop
  | failed (e : Endpoint Unit) : Exchanged args logFd i nextRpcId connection j (.exited 1) e
  | accepted {request raw : Frame} {now : UInt64} {e : Endpoint Unit} :
      args.Asks connection j nextRpcId request → e.sent = request.toBytes → e.got = raw.toBytes →
      e.clock = [now, request.header.reqSendTimeUs] →
      Exchanged args logFd i nextRpcId connection j
        (.accepted logFd i (nextRpcId + 1) connection j (raw.resReceived now)) e

theorem wp_client_exchange {body : Bytes} (hne : logFd ≠ connection.sockFd)
    (hbody : args.Body j body) (hshort : body.length < 2 ^ 32) :
    Prog.wp (watched connection logFd .shared fun _ => True) (do
      let (_, nextRpcId) ← rpcSendReq connection body 0 args.commandStr logFd nextRpcId
      let some response ← rpcRecvResp connection | return .exited 1
      return .accepted logFd i nextRpcId connection j response)
      (Exchanged args logFd i nextRpcId connection j) (.fresh ()) := by
  rw [wp_bind]
  refine wp_rpcSendReq hshort hne (fun _ => trivial) fun request hrequest => ?_
  dsimp only
  rw [wp_bind]
  refine wp_recvStamped (fun _ => trivial) (fun _ _ => .failed _) (fun _ _ => .failed _) ?_
  exact fun raw now => .accepted ⟨body, hbody, hrequest⟩ rfl rfl rfl

/-- Nothing is accepted after the part of a request that does not make it complete. -/
theorem wp_client_unanswered {bodyLen : Nat} (hbody : bodyLen + 1 < 2 ^ 32) :
    Prog.wp (watched connection logFd .shared fun _ => True) (do
      let (_, nextRpcId) ← rpcSendReq connection (.null bodyLen) 0 args.commandStr logFd nextRpcId
      let some response ← rpcRecvResp connection | return .exited 1
      return .accepted logFd i nextRpcId connection j response)
      (fun (pc : ClientPc) e => pc = .exited 1 ∨
        Frame.first e.sent = none ∧ ∃ raw : Frame, e.got = raw.toBytes) (.fresh ()) := by
  rw [wp_bind]
  refine wp_rpcSendReq_null hbody (fun _ => trivial) fun sent now hsent => ?_
  dsimp only
  rw [wp_bind]
  refine wp_recvStamped (fun _ => trivial) (fun _ _ => .inl rfl) (fun _ _ => .inl rfl) ?_
  exact fun raw now => .inr ⟨hsent, raw, rfl⟩

theorem Connected.unanswered (hc : Connected args c₀ ys zs logFd connection n h) {raw : Frame}
    (hsent : Frame.first e.sent = none) (hgot : e.got = raw.toBytes) :
    ¬(h.after n e).Answered := by
  intro hanswered
  obtain ⟨requests, responses, hlength, hrequests, hresponses⟩ := hanswered n
  rw [Host.after_sent, hc.called.sent n] at hrequests
  rw [Host.after_got, hc.called.got n, hgot,
    show raw.toBytes = Frame.stream [raw] from (List.append_nil _).symm,
    ← Frame.stream_append] at hresponses
  have hle := (Frame.stream_prefix_cut hrequests hsent).length_le
  have hlt := (Frame.stream_prefix hresponses).length_le
  rw [List.length_append, List.length_map, List.length_singleton] at hlt
  rw [List.length_map] at hle
  omega

theorem wp_client_start (hopened : c₀ ≤ h.conns) (hc : Called args c₀ ys [] h) :
    Prog.wp (hostEnv .shared) (clientCode stored args .start) (ClientAt stored args c₀ ys)
      (h, ()) := by
  rw [clientCode, wp_bind]
  refine wp_client fun r h' hact => ?_
  rcases r with _ | logFd
  · exact hact.elim
  obtain ⟨-, rfl⟩ := hact
  refine .connect ⟨hopened, by simp [Host.openFile], hc.of_eq rfl rfl (Nat.le_refl _)⟩
    (Nat.zero_le _) ?_
  rw [List.length_nil, Nat.zero_mul]

theorem wp_client_tcpConnect (hr : Ready args c₀ ys zs logFd h) {server : CString} {port : UInt16}
    {Q : Except Errno Connection → Host × Unit → Prop}
    (hQ : ∀ connection h', Connected args c₀ ys zs logFd connection h.conns h' →
      Q (.ok connection) (h', ())) :
    Prog.wp (hostEnv .shared) (tcpConnect server port) Q (h, ()) := by
  refine wp_connects Prod.fst (fun _ => True)
    (fun v op _ _ => wp_client fun r h' hact => ⟨hact, trivial⟩) trivial
    fun connection v hfree hview _ => ?_
  obtain ⟨h', _⟩ := v
  obtain rfl : h' = (h.openFile connection.sockFd .socket).connect connection.sockFd := hview
  have hne := Host.fd_ne hr.log hfree (Option.some_ne_none _)
  refine hQ _ _ ⟨⟨?_, ?_, hr.called.of_eq rfl rfl (Nat.le_succ _)⟩, ?_, hr.opened,
    Nat.lt_succ_self _⟩
  · exact Nat.le_succ_of_le hr.opened
  · simp [Host.connect, Host.openFile, hne, hr.log]
  · simp [Host.connect, Host.openFile]

theorem wp_client_connect (hr : Ready args c₀ ys zs logFd h) (hi : i ≤ args.nConns.toNat)
    (hlen : zs.length = i * args.rpcsPerConn.toNat) :
    Prog.wp (hostEnv .shared) (clientCode stored args (.connect logFd i nextRpcId))
      (ClientAt stored args c₀ ys) (h, ()) := by
  rw [clientCode]
  split_ifs with hlt
  · rw [wp_bind]
    exact wp_client_tcpConnect hr fun connection h' hc => .request hc hlt (Nat.zero_le _) hlen
  · obtain rfl : i = args.nConns.toNat := by omega
    exact .exited hr.called hlen

theorem Connected.close (hc : Connected args c₀ ys zs logFd connection n h) :
    Ready args c₀ ys zs logFd (h.close connection.sockFd) where
  opened := hc.opened
  called := hc.called.of_eq rfl rfl (Nat.le_refl _)
  log := by
    have hne : logFd ≠ connection.sockFd := by
      intro heq
      have hlog := hc.log
      rw [heq, hc.sock] at hlog
      cases hlog
    simp [Host.close, hne, hc.log]

theorem wp_client_request (hfits : args.Fits j)
    (hc : Connected args c₀ ys zs logFd connection n h) (hi : i < args.nConns.toNat)
    (hj : j ≤ args.rpcsPerConn.toNat) (hlen : zs.length = i * args.rpcsPerConn.toNat + j) :
    Prog.wp (hostEnv .shared) (clientCode stored args (.request logFd i nextRpcId connection j))
      (fun pc v => v.1.Answered → ClientAt stored args c₀ ys pc v) (h, ()) := by
  rw [clientCode]
  split_ifs with hlt
  · rw [wp_bind]
    have hlooks : (hostEnv .shared).allows (h, ()) (.indeterminate 3) ∧ ∀ bs v,
        (hostEnv .shared).act (h, ()) (.indeterminate 3) bs v → v = (h, ()) :=
      ⟨trivial, fun bs v hact => Prod.ext hact.1 rfl⟩
    refine wp_requestBody hfits hlooks (fun hreadable body hbody hshort => ?_)
      fun _ bodyLen hshort => ?_
    · refine wp_mono (hc.wp fun hne => wp_client_exchange hne hbody hshort) ?_
      rintro pc _ ⟨e, rfl, hexchanged⟩ -
      cases hexchanged with
      | failed => exact .stopped rfl nofun
      | @accepted request raw now _ hasks hsent hgot hclock =>
        refine .accepted (hc.exchange hgot hsent hasks) hi hlt hlen
          ⟨hreadable, ⟨_, rfl, hasks⟩, fun hsorted => ?_⟩
        simp only [Host.after, hclock] at hsorted
        exact List.rel_of_pairwise_cons hsorted List.mem_cons_self
    · refine wp_mono (hc.wp fun _ => wp_client_unanswered hshort) ?_
      rintro pc _ ⟨e, rfl, rfl | ⟨hsent, raw, hgot⟩⟩ hanswered
      · exact .stopped rfl nofun
      · exact absurd hanswered (hc.unanswered hsent hgot)
  · rw [wp_bind]
    refine wp_client fun r h' hact _ => ?_
    obtain ⟨rfl, -, rfl⟩ := hact
    refine .connect hc.close hi ?_
    rw [hlen, Nat.add_one_mul]
    omega

theorem wp_client_accepted {response : Frame}
    (hc : Connected args c₀ ys zs logFd connection n h) (hi : i < args.nConns.toNat)
    (hj : j < args.rpcsPerConn.toNat)
    (hlen : zs.length = i * args.rpcsPerConn.toNat + (j + 1)) :
    Prog.wp (hostEnv .shared)
      (clientCode stored args (.accepted logFd i nextRpcId connection j response))
      (ClientAt stored args c₀ ys) (h, ()) := by
  rw [clientCode, wp_bind]
  refine wp_mono (hc.wp (Q := fun _ e => e.got = [] ∧ e.sent = []) fun hne =>
    wp_log hne trivial ⟨rfl, rfl⟩) ?_
  rintro _ _ ⟨e, rfl, hgot, hsent⟩
  exact .wait (hc.silent hgot hsent) hi hj hlen

theorem wp_client_wait {response : Frame} (hc : Connected args c₀ ys zs logFd connection n h)
    (hi : i < args.nConns.toNat) (hj : j < args.rpcsPerConn.toNat)
    (hlen : zs.length = i * args.rpcsPerConn.toNat + (j + 1)) :
    Prog.wp (hostEnv .shared)
      (clientCode stored args (.wait logFd i nextRpcId connection j response))
      (ClientAt stored args c₀ ys) (h, ()) := by
  rw [clientCode, wp_bind]
  refine wp_mono (hc.wp (Q := fun _ e => e.got = [] ∧ e.sent = []) fun _ =>
    wp_nowUsec trivial fun _ => ⟨rfl, rfl⟩) ?_
  rintro now _ ⟨e, rfl, hgot, hsent⟩
  cases now with
  | none => exact .stopped rfl nofun
  | some now =>
    dsimp only
    split_ifs
    · exact .wait (hc.silent hgot hsent) hi hj hlen
    · exact .request (hc.silent hgot hsent) hi hj hlen

/-- What a client has sent and got stays made of its exchanges, in each round of its code, as long
as it gets no more responses than it has sent requests. -/
theorem ClientAt.wp_clientCode (hfits : ∀ j, args.Fits j) {pc : ClientPc} {v : Host × Unit}
    (hs : ClientAt stored args c₀ ys pc v) (hgo : pc.over = false) :
    Prog.wp (hostEnv .shared) (clientCode stored args pc)
      (fun pc v => v.1.Answered → ClientAt stored args c₀ ys pc v) v := by
  have always {p : Sys ClientPc} {v : Host × Unit}
      (h : Prog.wp (hostEnv .shared) p (ClientAt stored args c₀ ys) v) :
      Prog.wp (hostEnv .shared) p (fun pc v => v.1.Answered → ClientAt stored args c₀ ys pc v) v :=
    wp_mono h fun _ _ hs _ => hs
  cases hs with
  | start hopened hc => exact always (wp_client_start hopened hc)
  | connect hr hi hlen => exact always (wp_client_connect hr hi hlen)
  | @request _ _ _ _ j _ _ _ hc hi hj hlen => exact wp_client_request (hfits j) hc hi hj hlen
  | accepted hc hi hj hlen =>
    apply always
    apply wp_client_accepted hc hi hj
    rw [List.length_append, hlen, List.length_singleton]
    omega
  | wait hc hi hj hlen => exact always (wp_client_wait hc hi hj hlen)
  | exited => cases hgo
  | stopped hover => simp [hover] at hgo

end Client

end SoftwareDynamics.Network

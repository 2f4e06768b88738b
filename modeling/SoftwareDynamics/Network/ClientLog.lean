import SoftwareDynamics.Network.Disk

/-! The log file of the client, which has two records of each exchange: its request, of which the
client logs no body, and the response to it. -/

namespace SoftwareDynamics.Network

open ProofKit Prog

section Records

/-- What the client logs of an exchange: the request as it has sent it, and the response as it has
received it. -/
def Exchange.atClient (x : Exchange) (now : UInt64) : List LogMessage :=
  [⟨x.request.header, .fit 24 []⟩,
    ⟨(x.response.resReceived now).header, .fit 24 x.response.data⟩]

/-- What the client's log file holds after some exchanges, each with the time at which its response
was received. -/
def clientLog (zs : List (Exchange × UInt64)) : Bytes :=
  logFile (zs.flatMap fun z => z.1.atClient z.2)

theorem clientLog_append (zs : List (Exchange × UInt64)) (x : Exchange) (now : UInt64) :
    clientLog (zs ++ [(x, now)]) = clientLog zs ++ logFile (x.atClient now) := by
  rw [clientLog, List.flatMap_append, logFile_append, List.flatMap_singleton]
  rfl

theorem Exchange.logFile_atClient (x : Exchange) (now : UInt64) :
    logFile (x.atClient now) = (⟨x.request.header, .fit 24 []⟩ : LogMessage).toBytes ++
      (logRecord (x.response.resReceived now).message).toBytes := by
  rw [Frame.logRecord_eq]
  exact congrArg _ (List.append_nil _)

end Records

section Exchanges

variable {args : Args} {connection : Connection} {logFd : Fd} {e : Endpoint Unit} {logged : Bytes}

/-- A request is sent, and logged without its body. -/
theorem wp_loggedEnd_rpcSendReq {body : Bytes} (hbody : body.length < 2 ^ 32)
    {parentRpc rpcId : UInt32} {method : CString}
    {Q : Option Unit × UInt32 → Endpoint Unit × Bytes → Prop} (hlog : logFd ≠ connection.sockFd)
    (hQ : ∀ (f : Frame) more, f.Requests connection body parentRpc method rpcId →
      (0 ≤ logFd → more = (⟨f.header, .fit 24 []⟩ : LogMessage).toBytes) →
      Q (some (), rpcId + 1) ((e.look f.header.reqSendTimeUs).send f.toBytes, logged ++ more)) :
    wp (loggedEnd connection logFd .shared fun _ => True)
      (rpcSendReq connection body parentRpc method logFd rpcId) Q (e, logged) := by
  have look (n : Nat) (R : Octets n → Endpoint Unit × Bytes → Prop)
      (hR : ∀ bs, R bs (e, logged)) :
      wp (loggedEnd connection logFd .shared fun _ => True) (sys (.indeterminate n)) R
        (e, logged) := by
    refine ⟨⟨trivial, trivial⟩, ?_⟩
    rintro bs ⟨e', logged'⟩ ⟨rfl, rfl⟩
    exact hR bs
  refine wp_rpcSendReq_looks look fun checksum resLenLog pad => ?_
  refine wp_loggedEnd_nowUsec trivial fun now => ?_
  dsimp only
  refine wp_loggedEnd_ilog2 trivial fun reqLenLog => ?_
  have hlen : (UInt32.ofNat body.length).toNat = body.length := UInt32.toNat_ofNat_of_lt' hbody
  refine wp_loggedEnd_sendMessage (f := {
    mark := ⟨MARK_SIGNATURE, .ofNat headerSize, .ofNat body.length, ofLe32 checksum.1⟩
    header := _
    data := body
    headerLen_eq := rfl
    dataLen_eq := hlen }) hlog (fun _ _ => trivial) (fun _ _ _ => trivial) fun more hmore => ?_
  exact hQ _ more ⟨rfl, rfl, rfl⟩ hmore

/-- How a client goes on from the request number `j` of a connection, and what it has logged. -/
inductive LoggedExchange (args : Args) (logFd : Fd) (i : Nat) (nextRpcId : UInt32)
    (connection : Connection) (j : Nat) : ClientPc → Endpoint Unit × Bytes → Prop
  | failed (x : Endpoint Unit × Bytes) :
      LoggedExchange args logFd i nextRpcId connection j (.exited 1) x
  | accepted {request raw : Frame} {now : UInt64} {e : Endpoint Unit} {logged : Bytes} :
      args.Asks connection j nextRpcId request → e.sent = request.toBytes → e.got = raw.toBytes →
      (0 ≤ logFd → logged = (⟨request.header, .fit 24 []⟩ : LogMessage).toBytes) →
      LoggedExchange args logFd i nextRpcId connection j
        (.accepted logFd i (nextRpcId + 1) connection j (raw.resReceived now)) (e, logged)

theorem wp_loggedEnd_exchange {i j : Nat} {nextRpcId : UInt32} {body : Bytes}
    (hne : logFd ≠ connection.sockFd) (hbody : args.Body j body) (hshort : body.length < 2 ^ 32) :
    wp (loggedEnd connection logFd .shared fun _ => True) (do
      let (_, nextRpcId) ← rpcSendReq connection body 0 args.commandStr logFd nextRpcId
      let some response ← rpcRecvResp connection | return .exited 1
      return .accepted logFd i nextRpcId connection j response)
      (LoggedExchange args logFd i nextRpcId connection j) (.fresh (), []) := by
  rw [wp_bind]
  refine wp_loggedEnd_rpcSendReq hshort hne fun request more hrequest hmore => ?_
  dsimp only
  rw [wp_bind]
  refine wp_mono (wp_loggedEnd_recvStamped (wp_recvStamped
    (Q := fun r e => e.sent = request.toBytes ∧
      ∀ f ∈ r, ∃ raw now, f = Frame.resReceived raw now ∧ e.got = raw.toBytes)
    (fun _ => trivial) (fun _ _ => ⟨rfl, by simp⟩) (fun _ _ => ⟨rfl, by simp⟩)
    fun raw now => ⟨rfl, fun f hf => ⟨raw, now, (Option.mem_some_iff.mp hf).symm, rfl⟩⟩)) ?_
  rintro response ⟨e, _⟩ ⟨⟨hsent, hresponse⟩, rfl⟩
  cases response with
  | none => exact .failed _
  | some response =>
    obtain ⟨raw, now, rfl, hgot⟩ := hresponse response rfl
    exact .accepted ⟨body, hbody, hrequest⟩ hsent hgot hmore

/-- A request that is not sent as a whole is not logged. -/
theorem wp_loggedEnd_unanswered {i j bodyLen : Nat} {nextRpcId : UInt32}
    (hne : logFd ≠ connection.sockFd) (hbody : bodyLen + 1 < 2 ^ 32) :
    wp (loggedEnd connection logFd .shared fun _ => True) (do
      let (_, nextRpcId) ← rpcSendReq connection (.null bodyLen) 0 args.commandStr logFd nextRpcId
      let some response ← rpcRecvResp connection | return .exited 1
      return .accepted logFd i nextRpcId connection j response)
      (fun (pc : ClientPc) x => pc = .exited 1 ∨
        Frame.first x.1.sent = none ∧ ∃ raw : Frame, x.1.got = raw.toBytes) (.fresh (), []) := by
  refine wp_mono (wp_loggedEnd ?_ (wp_client_unanswered hbody)) fun pc x hx => hx.1
  have hsend (message : RPCMessage) : (sendRequest connection message (.null bodyLen) logFd).Only
      fun op => ∀ r bs, written logFd op r bs = bs := by
    refine (only_perform fun r bs => ?_).bind fun _ => only_pure _
    cases r with
    | none => rfl
    | some n => exact if_neg hne.symm
  refine (rpcSendReq_only_of (fun _ _ => rfl) (fun _ _ _ => rfl) hsend _ _ _).bind fun sent => ?_
  refine ((recvStamped_only connection _).mono fun op hop r bs => ?_).bind fun response => ?_
  · cases op <;> first | rfl | exact hop.elim
  · cases response <;> exact only_pure _

end Exchanges

section Client

/-- A client that has made these exchanges, on one connection after the other, and logged them. -/
structure Records (args : Args) (zs : List (Exchange × UInt64)) (logFd : Fd) (h : Host)
    (logged : Bytes) : Prop extends Ready args 0 [] (zs.map Prod.fst) logFd h where
  ordered : (zs.map Prod.fst).Pairwise fun x y => x.conn ≤ y.conn
  logged : 0 ≤ logFd → logged = clientLog zs

/-- Such a client with a connection. -/
structure RecordsOn (args : Args) (zs : List (Exchange × UInt64)) (logFd : Fd)
    (connection : Connection) (n : Nat) (h : Host) (logged : Bytes) : Prop extends
    Records args zs logFd h logged where
  sock : h.files connection.sockFd = some (.connection n)
  last : n < h.conns
  newest : ∀ x ∈ zs.map Prod.fst, x.conn ≤ n

/-- What a client has still to log. -/
def ClientPc.unlogged : ClientPc → Bytes
  | .accepted _ _ _ _ _ response => (logRecord response.message).toBytes
  | _ => []

/-- The client has not done what it was asked to do. -/
def ClientPc.failed : ClientPc → Bool
  | .exited status => status ≠ 0
  | .faulted => true
  | _ => false

/-- What holds at the control points of a client. -/
inductive ClientLogs (args : Args) : ClientPc → (Host × Unit) × Disk → Prop
  | start {h : Host} : Called args 0 [] [] h → ClientLogs args .start ((h, ()), .empty)
  | connect {logFd : Fd} {i : Nat} {nextRpcId : UInt32} {h : Host}
      {zs : List (Exchange × UInt64)} {logged : Bytes} : Records args zs logFd h logged →
      ClientLogs args (.connect logFd i nextRpcId) ((h, ()), .opened logFd clientLogFn logged)
  | request {logFd : Fd} {i : Nat} {nextRpcId : UInt32} {connection : Connection} {j n : Nat}
      {h : Host} {zs : List (Exchange × UInt64)} {logged : Bytes} :
      RecordsOn args zs logFd connection n h logged →
      ClientLogs args (.request logFd i nextRpcId connection j)
        ((h, ()), .opened logFd clientLogFn logged)
  | accepted {logFd : Fd} {i : Nat} {nextRpcId : UInt32} {connection : Connection} {j n : Nat}
      {response : Frame} {h : Host} {zs : List (Exchange × UInt64)} {logged : Bytes} :
      RecordsOn args zs logFd connection n h (logged ++ (logRecord response.message).toBytes) →
      ClientLogs args (.accepted logFd i nextRpcId connection j response)
        ((h, ()), .opened logFd clientLogFn logged)
  | wait {logFd : Fd} {i : Nat} {nextRpcId : UInt32} {connection : Connection} {j n : Nat}
      {response : Frame} {h : Host} {zs : List (Exchange × UInt64)} {logged : Bytes} :
      RecordsOn args zs logFd connection n h logged →
      ClientLogs args (.wait logFd i nextRpcId connection j response)
        ((h, ()), .opened logFd clientLogFn logged)
  | exited {logFd : Fd} {h : Host} {zs : List (Exchange × UInt64)} {logged : Bytes} :
      Records args zs logFd h logged →
      ClientLogs args (.exited 0) ((h, ()), .opened logFd clientLogFn logged)
  | failed {pc : ClientPc} {v : (Host × Unit) × Disk} : pc.failed → ClientLogs args pc v

variable {stored : Bool} {args : Args} {zs : List (Exchange × UInt64)} {connection : Connection}
  {logFd : Fd} {h : Host} {e : Endpoint Unit} {n i j : Nat} {nextRpcId : UInt32} {d : Disk}
  {logged : Bytes}

theorem ClientPc.over_of_failed {pc : ClientPc} (h : pc.failed = true) : pc.over = true := by
  cases pc <;> first | rfl | cases h

theorem RecordsOn.connected (hl : RecordsOn args zs logFd connection n h logged) :
    Connected args 0 [] (zs.map Prod.fst) logFd connection n h :=
  ⟨hl.toReady, hl.sock, Nat.zero_le n, hl.last⟩

theorem RecordsOn.log_ne (hl : RecordsOn args zs logFd connection n h logged) :
    logFd ≠ connection.sockFd := Host.fd_ne hl.log hl.sock nofun

/-- Nothing has been got or sent. -/
theorem RecordsOn.silent (hl : RecordsOn args zs logFd connection n h logged) (hgot : e.got = [])
    (hsent : e.sent = []) : RecordsOn args zs logFd connection n (h.after n e) logged where
  toReady := (hl.connected.silent hgot hsent).toReady
  ordered := hl.ordered
  logged := hl.logged
  sock := hl.sock
  last := hl.last
  newest := hl.newest

/-- A request has been sent and logged, and its response has been got but not logged yet. -/
theorem RecordsOn.exchange (hl : RecordsOn args zs logFd connection n h logged)
    {request raw : Frame} {now : UInt64} {more : Bytes} {rpcId : UInt32}
    (hasks : args.Asks connection j rpcId request) (hsent : e.sent = request.toBytes)
    (hgot : e.got = raw.toBytes)
    (hmore : 0 ≤ logFd → more = (⟨request.header, .fit 24 []⟩ : LogMessage).toBytes) :
    RecordsOn args (zs ++ [(⟨n, request, raw⟩, now)]) logFd connection n (h.after n e)
      (logged ++ more ++ (logRecord (raw.resReceived now).message).toBytes) where
  toReady := by
    have hexchange := (hl.connected.exchange hgot hsent hasks).toReady
    rwa [List.map_append]
  ordered := by
    rw [List.map_append]
    refine List.pairwise_append.mpr ⟨hl.ordered, List.pairwise_singleton _ _, fun x hx y hy => ?_⟩
    rw [List.mem_singleton.mp hy]
    exact hl.newest x hx
  logged hfd := by
    rw [hl.logged hfd, hmore hfd, clientLog_append, Exchange.logFile_atClient, List.append_assoc]
  sock := hl.sock
  last := hl.last
  newest x hx := by
    rw [List.map_append] at hx
    rcases List.mem_append.mp hx with hx | hx
    · exact hl.newest x hx
    · exact Nat.le_of_eq (congrArg Exchange.conn (List.mem_singleton.mp hx))

/-- A new connection is the last one. -/
theorem Records.connect (hl : Records args zs logFd h logged)
    (hnew : h.files connection.sockFd = none) :
    RecordsOn args zs logFd connection h.conns
      ((h.openFile connection.sockFd .socket).connect connection.sockFd) logged where
  opened := Nat.zero_le _
  log := by
    have hne : logFd ≠ connection.sockFd := by
      intro heq
      have hlog := hl.log
      rw [heq, hnew] at hlog
      cases hlog
    simp [Host.connect, Host.openFile, hne, hl.log]
  called := hl.called.of_eq rfl rfl (Nat.le_succ _)
  ordered := hl.ordered
  logged := hl.logged
  sock := by simp [Host.connect, Host.openFile]
  last := Nat.lt_succ_self _
  newest x hx := Nat.le_of_lt (hl.called.opened x hx)

theorem RecordsOn.close (hl : RecordsOn args zs logFd connection n h logged) :
    Records args zs logFd (h.close connection.sockFd) logged where
  toReady := hl.connected.close
  ordered := hl.ordered
  logged := hl.logged

/-- The client with its files. -/
def clientDisk : Env SysOp SysOp.Result ((Host × Unit) × Disk) := diskEnv .shared fun _ => True

theorem wp_disk_tcpConnect {server : CString} {port : UInt16}
    {Q : Except Errno Connection → (Host × Unit) × Disk → Prop}
    (hQ : ∀ connection : Connection, h.files connection.sockFd = none →
      Q (.ok connection)
        ((((h.openFile connection.sockFd .socket).connect connection.sockFd), ()), d)) :
    wp clientDisk (tcpConnect server port) Q ((h, ()), d) := by
  refine wp_connects (fun v => v.1.1) (fun v => v.2 = d) (fun v op hcalls hd => ?_) rfl
    fun connection v hfree hview hd => ?_
  · obtain ⟨⟨h₁, _⟩, d₁⟩ := v
    obtain rfl : d₁ = d := hd
    have hnote (r : op.Result) : Disk.note op r d₁ = d₁ := by cases hcalls <;> rfl
    exact wp_disk_quiet trivial hnote fun r h' _ hact _ => ⟨hact, rfl⟩
  · obtain ⟨⟨h₁, _⟩, d₁⟩ := v
    obtain rfl : h₁ = (h.openFile connection.sockFd .socket).connect connection.sockFd := hview
    obtain rfl : d₁ = d := hd
    exact hQ connection hfree

/-- What a program does at one end of a connection, and logs, a client does that has this
connection. -/
theorem RecordsOn.wp {α : Type} {p : Sys α} {Q : α → Endpoint Unit × Bytes → Prop}
    (hl : RecordsOn args zs logFd connection n h logged)
    (hp : Prog.wp (loggedEnd connection logFd .shared fun _ => True) p Q (.fresh (), [])) :
    Prog.wp clientDisk p (fun a v => ∃ e more,
      v = ((h.after n e, ()), .opened logFd clientLogFn (logged ++ more)) ∧ Q a (e, more))
      ((h, ()), .opened logFd clientLogFn logged) :=
  wp_disk_connection hl.sock hl.log (fun _ _ _ => trivial) hp

theorem wp_disk_request (hfits : args.Fits j)
    (hl : RecordsOn args zs logFd connection n h logged) :
    Prog.wp clientDisk (clientCode stored args (.request logFd i nextRpcId connection j))
      (fun pc v => v.1.1.Answered → ClientLogs args pc v)
      ((h, ()), .opened logFd clientLogFn logged) := by
  rw [clientCode]
  split_ifs
  · rw [wp_bind]
    have hlooks : clientDisk.allows ((h, ()), .opened logFd clientLogFn logged)
        (.indeterminate 3) ∧ ∀ bs v, clientDisk.act ((h, ()), .opened logFd clientLogFn logged)
          (.indeterminate 3) bs v → v = ((h, ()), .opened logFd clientLogFn logged) :=
      ⟨⟨trivial, trivial⟩, fun bs v hact => Prod.ext (Prod.ext hact.1.1 rfl) hact.2⟩
    refine wp_requestBody hfits hlooks (fun _ body hbody hshort => ?_) fun _ bodyLen hshort => ?_
    · refine wp_mono (hl.wp (wp_loggedEnd_exchange hl.log_ne hbody hshort)) ?_
      rintro pc _ ⟨e, more, rfl, hexchange⟩ -
      cases hexchange with
      | failed => exact .failed rfl
      | accepted hasks hsent hgot hmore => exact .accepted (hl.exchange hasks hsent hgot hmore)
    · refine wp_mono (hl.wp (wp_loggedEnd_unanswered hl.log_ne hshort)) ?_
      rintro pc _ ⟨e, more, rfl, rfl | ⟨hsent, raw, hgot⟩⟩ hanswered
      · exact .failed rfl
      · exact absurd hanswered (hl.connected.unanswered hsent hgot)
  · rw [wp_bind]
    refine wp_disk_quiet trivial (Disk.note_close_of_ne hl.log_ne.symm) fun r h' _ hact _ _ => ?_
    obtain ⟨rfl, -, rfl⟩ := hact
    exact .connect hl.close

/-- What the client logs keeps up with its exchanges, in each round of its code, as long as it gets
no more responses than it has sent requests. -/
theorem ClientLogs.wp_clientCode (hfits : ∀ j, args.Fits j) {pc : ClientPc}
    {v : (Host × Unit) × Disk} (hs : ClientLogs args pc v) (hgo : pc.over = false) :
    Prog.wp clientDisk (clientCode stored args pc)
      (fun pc v => v.1.1.Answered → ClientLogs args pc v) v := by
  have always {p : Sys ClientPc} {v : (Host × Unit) × Disk}
      (h : Prog.wp clientDisk p (ClientLogs args) v) :
      Prog.wp clientDisk p (fun pc v => v.1.1.Answered → ClientLogs args pc v) v :=
    wp_mono h fun _ _ hs _ => hs
  cases hs with
  | @start h hc =>
    refine always ?_
    rw [clientCode, wp_bind]
    refine wp_disk trivial fun r h' _ hact _ => ?_
    rcases r with _ | logFd
    · exact hact.elim
    obtain ⟨-, rfl⟩ := hact
    rw [Disk.note_creat]
    refine @connect _ _ _ _ _ [] [] ⟨⟨Nat.zero_le _, by simp [Host.openFile], ?_⟩, .nil,
      fun _ => rfl⟩
    exact hc.of_eq rfl rfl (Nat.le_refl _)
  | connect hl =>
    refine always ?_
    rw [clientCode]
    split_ifs
    · rw [wp_bind]
      exact wp_disk_tcpConnect fun connection hnew => .request (hl.connect hnew)
    · exact .exited hl
  | @request _ _ _ _ j _ _ _ _ hl => exact wp_disk_request (hfits j) hl
  | @accepted logFd _ _ connection _ _ response h zs logged hl =>
    refine always ?_
    have hlog := hl.log_ne
    rw [clientCode, wp_bind]
    refine wp_mono (@wp_disk_connection _ .shared connection logFd h _ clientLogFn logged _ _
      (fun _ => True) (fun _ => True)
      (fun _ x => x = (.fresh (), (logRecord response.message).toBytes)) () hl.sock hl.log
      (fun _ _ _ => trivial) (wp_loggedEnd_log hlog (fun _ _ => trivial) rfl)) ?_
    rintro _ _ ⟨e, more, rfl, heq⟩
    cases heq
    rw [Host.after_fresh]
    exact .wait hl
  | @wait logFd _ _ connection _ _ response h zs logged hl =>
    refine always ?_
    rw [clientCode, wp_bind]
    refine wp_mono (hl.wp (Q := fun _ x => x.1.got = [] ∧ x.1.sent = [] ∧ x.2 = [])
      (wp_loggedEnd_nowUsec trivial fun _ => ⟨rfl, rfl, rfl⟩)) ?_
    rintro now _ ⟨e, more, rfl, hgot, hsent, rfl⟩
    have hl' := hl.silent hgot hsent
    rw [← List.append_nil logged] at hl'
    cases now with
    | none => exact .failed rfl
    | some now =>
      dsimp only
      split_ifs
      · exact .wait hl'
      · exact .request hl'
  | exited => cases hgo
  | failed hfailed =>
    rw [ClientPc.over_of_failed hfailed] at hgo
    cases hgo

theorem Records.tells {more bytes : Bytes} (hr : Records args zs logFd h (logged ++ more))
    (hfile : (Disk.opened logFd clientLogFn logged).file clientLogFn = some bytes) :
    ∃ zs, Called args 0 [] (zs.map Prod.fst) h ∧
      ((zs.map Prod.fst).Pairwise fun x y => x.conn ≤ y.conn) ∧ bytes ++ more = clientLog zs := by
  refine ⟨zs, hr.called, hr.ordered, ?_⟩
  by_cases hfd : 0 ≤ logFd
  · rw [Disk.file_opened hfd, Option.some.injEq] at hfile
    rw [← hfile, hr.logged hfd]
  · rw [Disk.file_opened_of_neg hfd] at hfile
    cases hfile

/-- The log file of a client tells of all of its exchanges, up to what it has still to log. -/
theorem ClientLogs.tells {pc : ClientPc} {v : (Host × Unit) × Disk} (hs : ClientLogs args pc v)
    (hgo : pc.failed = false) {bytes : Bytes} (hfile : v.2.file clientLogFn = some bytes) :
    ∃ zs, Called args 0 [] (zs.map Prod.fst) v.1.1 ∧
      ((zs.map Prod.fst).Pairwise fun x y => x.conn ≤ y.conn) ∧
      bytes ++ pc.unlogged = clientLog zs := by
  have nothing {zs : List (Exchange × UInt64)} {logFd : Fd} {h : Host} {logged : Bytes}
      (hr : Records args zs logFd h logged) : Records args zs logFd h (logged ++ []) := by
    rwa [List.append_nil]
  cases hs with
  | start => cases hfile
  | connect hr => exact (nothing hr).tells hfile
  | request hl => exact (nothing hl.toRecords).tells hfile
  | accepted hl => exact hl.toRecords.tells hfile
  | wait hl => exact (nothing hl.toRecords).tells hfile
  | exited hr => exact (nothing hr).tells hfile
  | failed hfailed =>
    rw [hfailed] at hgo
    cases hgo

end Client

end SoftwareDynamics.Network

import SoftwareDynamics.Network.Disk

/-! The log file of a listener thread, which has two records of each exchange: its request, and the
response to it. -/

namespace SoftwareDynamics.Network

open ProofKit Prog

section Records

/-- What the server logs of an exchange: the request as it has received it, and the response as it
has sent it. -/
def Exchange.atServer (x : Exchange) : List LogMessage :=
  [⟨(x.request.reqReceived x.response.header.reqRecvTimeUs).header, .fit 24 x.request.data⟩,
    ⟨x.response.header, .fit 24 x.response.data⟩]

/-- What the server's log file holds after some exchanges. -/
def serverLog (xs : List Exchange) : Bytes := logFile (xs.flatMap Exchange.atServer)

theorem serverLog_append (xs : List Exchange) (x : Exchange) :
    serverLog (xs ++ [x]) = serverLog xs ++ logFile x.atServer := by
  rw [serverLog, List.flatMap_append, logFile_append, List.flatMap_singleton]
  rfl

theorem Exchange.logFile_atServer (x : Exchange) :
    logFile x.atServer =
      (logRecord (x.request.reqReceived x.response.header.reqRecvTimeUs).message).toBytes ++
        (logRecord x.response.message).toBytes := by
  rw [Frame.logRecord_eq, Frame.logRecord_eq]
  exact congrArg _ (List.append_nil _)

end Records

section Rounds

variable {κ : Type}

/-- One round of serving connection `n`, so far: it has not answered yet, or what it has logged of
its exchange is all but a part of the last record. -/
def LoggedRound (ops : StoreOps κ) (k : κ) (logFd : Fd) (n : Nat) (x : Endpoint κ × Bytes) : Prop :=
  (x.1.sent = [] ∧ x.1.store = k ∧ (x.1.got = [] → x.2 = [])) ∨ ∃ request response : Frame,
    x.1.got = request.toBytes ∧ x.1.sent <+: response.toBytes ∧
    Handles ops k request response.header.status response.data x.1.store ∧
    response.Answers request ∧ Timed x.1.clock response ∧
    (0 ≤ logFd → ∃ missing : Bytes, missing.length ≤ logMessageSize ∧
      x.2 ++ missing = logFile (Exchange.mk n request response).atServer)

/-- How a round of serving connection `n` ends, and what it has logged. -/
inductive LoggedOutcome (ops : StoreOps κ) (k : κ) (logFd : Fd) (n : Nat) :
    Option RpcAction → Endpoint κ × Bytes → Prop
  | silent {e : Endpoint κ} {logged : Bytes} : e.sent = [] → e.store = k →
      (e.got = [] → logged = []) → LoggedOutcome ops k logFd n (some .CONTINUE) (e, logged)
  | answered {action : Option RpcAction} {e : Endpoint κ} {logged : Bytes}
      {request response : Frame} : e.got = request.toBytes → e.sent = response.toBytes →
      Handles ops k request response.header.status response.data e.store →
      response.Answers request → Timed e.clock response →
      (0 ≤ logFd → logged = logFile (Exchange.mk n request response).atServer) →
      LoggedOutcome ops k logFd n action (e, logged)

variable {ops : StoreOps κ} {k : κ} {connection : Connection} {logFd : Fd} {n : Nat}

/-- A request that is handled as it should be gets its response, and both are logged. -/
theorem wp_loggedEnd_respond {request : Frame} {now : UInt64} {status : RpcStatus}
    {body : Bytes} {e : Endpoint κ} {Q : Unit → Endpoint κ × Bytes → Prop}
    (hlog : logFd ≠ connection.sockFd) (hgot : e.got = request.toBytes) (hsent : e.sent = [])
    (hclock : e.clock = [now]) (hhandles : Handles ops k request status body e.store)
    (hQ : ∀ e logged, LoggedOutcome ops k logFd n request.action (e, logged) → Q () (e, logged)) :
    wp (loggedEnd connection logFd ops (LoggedRound ops k logFd n))
      (respond connection (request.reqReceived now) body status logFd) Q
      (e, (logRecord (request.reqReceived now).message).toBytes) := by
  have hbody := hhandles.length_lt
  -- What holds while the response is being made and sent.
  have round {e' : Endpoint κ} {t : UInt64} {lenLog : UInt8} {part : Bytes}
      (hgot' : e'.got = e.got) (hstore : e'.store = e.store)
      (hsent' : e'.sent <+: ((request.reqReceived now).response body hbody status t lenLog).toBytes)
      (htimed : Timed e'.clock ((request.reqReceived now).response body hbody status t lenLog))
      (hpart : part <+: (logRecord ((request.reqReceived now).response body hbody status t
        lenLog).message).toBytes) :
      LoggedRound ops k logFd n
        (e', (logRecord (request.reqReceived now).message).toBytes ++ part) := by
    obtain ⟨missing, hmissing⟩ := hpart
    refine .inr ⟨request, (request.reqReceived now).response body hbody status t lenLog,
      hgot'.trans hgot, hsent', hstore ▸ hhandles, ⟨rfl, rfl⟩, htimed, fun _ => ⟨missing, ?_, ?_⟩⟩
    · rw [← LogMessage.toBytes_length, ← hmissing, List.length_append]
      exact Nat.le_add_left _ _
    · rw [Exchange.logFile_atServer, List.append_assoc, hmissing]
      rfl
  have timed (t : UInt64) (lenLog : UInt8) : Timed (t :: e.clock)
      ((request.reqReceived now).response body hbody status t lenLog) := by
    intro hsorted
    rw [hclock] at hsorted
    exact List.rel_of_pairwise_cons hsorted List.mem_cons_self
  have waiting {e' : Endpoint κ} (hgot' : e'.got = e.got) (hstore : e'.store = e.store)
      (hsent' : e'.sent = e.sent) : LoggedRound ops k logFd n
        (e', (logRecord (request.reqReceived now).message).toBytes) := by
    have hround := @round e' now 0 [] hgot' hstore (hsent' ▸ hsent ▸ List.nil_prefix)
      (fun _ => UInt64.le_refl now) List.nil_prefix
    rwa [List.append_nil] at hround
  rw [respond, wp_bind, rpcSendResp, wp_bind]
  refine wp_loggedEnd_nowUsec (waiting rfl rfl rfl) fun t => ?_
  dsimp only
  rw [wp_bind]
  refine wp_loggedEnd_ilog2 (waiting rfl rfl rfl) fun lenLog => ?_
  let response := (request.reqReceived now).response body hbody status t lenLog
  have hsend (sent : Bytes) : ((e.look t).send sent).sent = sent := by
    simp [Endpoint.send, Endpoint.look, hsent]
  refine wp_loggedEnd_sendMessage (f := response) hlog (fun sent hpre => ?_)
    (fun _ part hpart => ?_) fun more hmore => ?_
  · have hround := @round ((e.look t).send sent) t lenLog [] rfl rfl (by rwa [hsend])
      (timed t lenLog) List.nil_prefix
    rwa [List.append_nil] at hround
  · exact @round ((e.look t).send response.toBytes) t lenLog part rfl rfl
      (by rw [hsend]) (timed t lenLog) hpart
  · refine hQ _ _ (@LoggedOutcome.answered _ _ _ _ _ _ _ _ request response hgot (hsend _)
      hhandles ⟨rfl, rfl⟩ (timed t lenLog) fun hfd => ?_)
    rw [Exchange.logFile_atServer, hmore hfd]
    rfl

theorem keeps_logged (request : Frame) (now : UInt64) (logged : Bytes) :
    Keeps (loggedEnd connection logFd ops (LoggedRound ops k logFd n)) ops k fun k' x =>
      x.1.got = request.toBytes ∧ x.1.sent = [] ∧ x.1.clock = [now] ∧ x.1.store = k' ∧
        x.2 = logged := by
  have waiting {x : Endpoint κ × Bytes} (hgot : x.1.got = request.toBytes) (hsent : x.1.sent = [])
      (hstore : x.1.store = k) : LoggedRound ops k logFd n x :=
    .inl ⟨hsent, hstore, fun hnil => absurd (hgot.symm.trans hnil) request.toBytes_ne_nil⟩
  refine ⟨fun size x hx => ?_, fun key value x hx => ?_, fun key x hx => ?_⟩
  all_goals
    obtain ⟨hgot, hsent, hclock, hstore, hlogged⟩ := hx
    refine ⟨⟨waiting hgot hsent hstore, trivial⟩, fun r x' hr => ?_⟩
    obtain ⟨hact, hnote⟩ := hr
    have hsame : x'.2 = logged := hnote.trans hlogged
  · have hx' : x'.1 = x.1 := hact
    exact ⟨hx' ▸ hgot, hx' ▸ hsent, hx' ▸ hclock, hx' ▸ hstore, hsame⟩
  all_goals
    obtain ⟨store, hact, hx'⟩ := hact
    exact ⟨store, hstore ▸ hact, hx' ▸ hgot, hx' ▸ hsent, hx' ▸ hclock, by rw [hx'], hsame⟩

/-- A round of serving a connection logs the request and its response, if there is a response. -/
theorem wp_loggedEnd_serveMessage (hlog : logFd ≠ connection.sockFd) :
    wp (loggedEnd connection logFd ops (LoggedRound ops k logFd n)) (serveMessage connection logFd)
      (LoggedOutcome ops k logFd n) (.fresh k, []) := by
  rw [serveMessage, wp_bind]
  refine wp_mono (wp_loggedEnd_recvStamped (wp_recvStamped
    (Q := fun r e => e.sent = [] ∧ e.store = k ∧
      ∀ f ∈ r, ∃ request now, f = Frame.reqReceived request now ∧ e.got = request.toBytes ∧
        e.clock = [now])
    (fun got => .inl ⟨rfl, rfl, fun _ => rfl⟩) (fun got _ => ⟨rfl, rfl, by simp⟩)
    (fun got _ => ⟨rfl, rfl, by simp⟩)
    fun f now => ⟨rfl, rfl, fun g hg =>
      ⟨f, now, (Option.mem_some_iff.mp hg).symm, rfl, rfl⟩⟩)) ?_
  rintro message ⟨e, _⟩ ⟨⟨hsent, hstore, hmessage⟩, rfl⟩
  dsimp only at hsent hstore hmessage
  cases message with
  | none => exact .silent hsent hstore fun _ => rfl
  | some message =>
    obtain ⟨request, now, rfl, hgot, hclock⟩ := hmessage message rfl
    have waiting (logged : Bytes) : LoggedRound ops k logFd n (e, logged) :=
      .inl ⟨hsent, hstore, fun hnil => absurd (hgot.symm.trans hnil) request.toBytes_ne_nil⟩
    dsimp only
    rw [wp_bind]
    refine wp_loggedEnd_log hlog (fun part _ => waiting _) ?_
    rw [List.nil_append]
    refine (keeps_logged request now
      (logRecord (request.reqReceived now).message).toBytes).wp_processCommand
      ⟨hgot, hsent, hclock, hstore, rfl⟩ (fun status body k' x hhandles hx => ?_) fun _ => ?_
    · obtain ⟨e', logged⟩ := x
      obtain ⟨hgot', hsent', hclock', rfl, rfl⟩ := hx
      exact wp_loggedEnd_respond hlog hgot' hsent' hclock' hhandles.of_reqReceived
        fun e logged houtcome => houtcome
    · exact .silent hsent hstore fun hnil => absurd (hgot.symm.trans hnil) request.toBytes_ne_nil

end Rounds

section Server

variable {κ : Type} {ops : StoreOps κ} {k₀ k : κ} {xs : List Exchange} {h : Host} {n : Nat}
  {e : Endpoint κ} {d : Disk} {path logged : Bytes}

/-- All requests that a side has got have been answered. -/
def AllHandled (xs : List Exchange) (h : Host) : Prop :=
  ∀ n, h.got n = Frame.stream ((onConn xs n).map Exchange.request)

theorem AllHandled.of_silent (hup : UpToDate xs h n) (hall : AllHandled xs (h.after n e)) :
    e.got = [] ∧ AllHandled xs h := by
  have hgot := hall n
  rw [Host.after_got, ← hup.got, List.append_right_eq_self] at hgot
  refine ⟨hgot, fun m => ?_⟩
  have hm := hall m
  simpa [Host.after, hgot] using hm

theorem AllHandled.of_answered {request response : Frame} (hup : UpToDate xs h n)
    (hall : AllHandled (xs ++ [⟨n, request, response⟩]) (h.after n e)) : AllHandled xs h := by
  intro m
  by_cases hm : m = n
  · rw [hm]
    exact hup.got
  · simpa [Host.after, hm, Ne.symm hm] using hall m

/-- The log file tells of all exchanges, up to a part of the last record, at least while all
requests have been answered. -/
def LogsUp (ops : StoreOps κ) (k₀ : κ) (path : Bytes) (v : (Host × κ) × Disk) : Prop :=
  ∃ xs, Correlated ops k₀ xs v.1 ∧ (AllHandled xs v.1.1 → ∀ log, v.2.file path = some log →
    ∃ missing : Bytes, missing.length ≤ logMessageSize ∧ log ++ missing = serverLog xs)

/-- The log file tells of all exchanges, at least while all requests have been answered. -/
def LogsAll (ops : StoreOps κ) (k₀ : κ) (path : Bytes) (v : (Host × κ) × Disk) : Prop :=
  ∃ xs, Correlated ops k₀ xs v.1 ∧
    (AllHandled xs v.1.1 → ∀ log, v.2.file path = some log → log = serverLog xs)

theorem LogsAll.logsUp {v : (Host × κ) × Disk} (h : LogsAll ops k₀ path v) :
    LogsUp ops k₀ path v := by
  obtain ⟨xs, hc, hlog⟩ := h
  refine ⟨xs, hc, fun hall log hfile => ⟨[], Nat.zero_le _, ?_⟩⟩
  rw [List.append_nil, hlog hall log hfile]

/-- What holds at the control points of a listener thread whose log file is at `path`. -/
inductive ServerLogs (ops : StoreOps κ) (k₀ : κ) (path : Bytes) :
    ListenPc → (Host × κ) × Disk → Prop
  | start {h : Host} {k : κ} : h.Unused → Correlated ops k₀ [] (h, k) →
      ServerLogs ops k₀ path .start ((h, k), .empty)
  | accept {listenSockFd logFd : Fd} {h : Host} {k : κ} {xs : List Exchange} {logged : Bytes} :
      h.files listenSockFd = some .socket → h.files logFd = some .log → h.Unused →
      Correlated ops k₀ xs (h, k) → (0 ≤ logFd → AllHandled xs h → logged = serverLog xs) →
      ServerLogs ops k₀ path (.accept listenSockFd logFd) ((h, k), .opened logFd path logged)
  | serve {listenSockFd logFd : Fd} {connection : Connection} {h : Host} {k : κ} {n : Nat}
      {xs : List Exchange} {logged : Bytes} :
      h.files listenSockFd = some .socket → h.files logFd = some .log → h.Unused →
      h.files connection.sockFd = some (.connection n) → n + 1 = h.conns →
      Correlated ops k₀ xs (h, k) → UpToDate xs h n →
      (0 ≤ logFd → AllHandled xs h → logged = serverLog xs) →
      ServerLogs ops k₀ path (.serve listenSockFd logFd connection)
        ((h, k), .opened logFd path logged)
  | left {pc : ListenPc} {v : (Host × κ) × Disk} : pc.left → LogsAll ops k₀ path v →
      ServerLogs ops k₀ path pc v

theorem logsAll_opened {logFd : Fd} (hc : Correlated ops k₀ xs (h, k))
    (hlogged : 0 ≤ logFd → AllHandled xs h → logged = serverLog xs) :
    LogsAll ops k₀ path ((h, k), .opened logFd path logged) := by
  refine ⟨xs, hc, fun hall log hfile => ?_⟩
  by_cases hfd : 0 ≤ logFd
  · rw [Disk.file_opened hfd, Option.some.injEq] at hfile
    rw [← hfile, hlogged hfd hall]
  · rw [Disk.file_opened_of_neg hfd] at hfile
    cases hfile

theorem ServerLogs.logsAll {pc : ListenPc} {v : (Host × κ) × Disk}
    (hs : ServerLogs ops k₀ path pc v) : LogsAll ops k₀ path v := by
  cases hs with
  | start _ hc => exact ⟨[], hc, fun _ log hfile => by cases hfile⟩
  | accept _ _ _ hc hlogged => exact logsAll_opened hc hlogged
  | serve _ _ _ _ _ hc _ hlogged => exact logsAll_opened hc hlogged
  | left _ hall => exact hall

/-- What has been got and sent, and logged, does not depend on the descriptors. -/
theorem LogsAll.of_eq {h' : Host} {d' : Disk} (hs : LogsAll ops k₀ path ((h, k), d))
    (hgot : h'.got = h.got) (hsent : h'.sent = h.sent) (hclock : h'.clock = h.clock)
    (hconns : h.conns ≤ h'.conns) (hfile : d'.file = d.file) :
    LogsAll ops k₀ path ((h', k), d') := by
  obtain ⟨xs, hc, hlog⟩ := hs
  refine ⟨xs, hc.of_eq hgot hsent hclock hconns, fun hall log hlog' => ?_⟩
  have hall' : AllHandled xs h := fun n => hgot ▸ hall n
  exact hlog hall' log (hfile ▸ hlog')

theorem wp_disk_tcpListen {port : UInt16} {backlog : Int32}
    {Q : Except Errno Fd → (Host × κ) × Disk → Prop} (hs : LogsAll ops k₀ path ((h, k), d))
    (hQ : ∀ fd, h.files fd = none → Q (.ok fd) ((h.openFile fd .socket, k), d)) :
    wp (diskEnv ops (LogsUp ops k₀ path)) (tcpListen port backlog) Q ((h, k), d) := by
  refine wp_listens (fun v => v.1.1) (fun v => v.1.2 = k ∧ v.2 = d) (fun v op hcalls hkd => ?_)
    ⟨rfl, rfl⟩ fun fd v hfree hview hkd => ?_
  · obtain ⟨⟨h₁, k₁⟩, d₁⟩ := v
    obtain ⟨rfl, rfl⟩ : k₁ = k ∧ d₁ = d := hkd
    have hs₁ : LogsAll ops k₀ path ((h₁, k₁), d₁) := by
      cases hcalls <;> exact hs.of_eq rfl rfl rfl (Nat.le_refl _) rfl
    have hnote (r : op.Result) : Disk.note op r d₁ = d₁ := by cases hcalls <;> rfl
    refine wp_disk_quiet hs₁.logsUp hnote fun r h' k' hact hstore => ⟨hact, ?_, rfl⟩
    cases hcalls <;> exact hstore
  · obtain ⟨⟨h₁, k₁⟩, d₁⟩ := v
    obtain rfl : h₁ = h.openFile fd .socket := hview
    obtain ⟨rfl, rfl⟩ : k₁ = k ∧ d₁ = d := hkd
    exact hQ fd hfree

theorem wp_disk_tcpAccept {fd : Fd} {connection : Connection}
    {Q : Except Errno Unit × Connection → (Host × κ) × Disk → Prop}
    (hs : LogsAll ops k₀ path ((h, k), d))
    (hQ : ∀ connection : Connection, h.files connection.sockFd = none →
      Q (.ok (), connection) ((h.connect connection.sockFd, k), d)) :
    wp (diskEnv ops (LogsUp ops k₀ path)) (tcpAccept fd connection) Q ((h, k), d) := by
  refine wp_accepts (fun v => v.1.1) (fun v => v.1.2 = k ∧ v.2 = d) (fun v op hcalls hkd => ?_)
    ⟨rfl, rfl⟩ fun connection v hfree hview hkd => ?_
  · obtain ⟨⟨h₁, k₁⟩, d₁⟩ := v
    obtain ⟨rfl, rfl⟩ : k₁ = k ∧ d₁ = d := hkd
    have hs₁ : LogsAll ops k₀ path ((h₁, k₁), d₁) := by
      cases hcalls with
      | accept => exact hs
      | getsockname => exact hs.of_eq rfl rfl rfl (Nat.le_succ _) rfl
    have hnote (r : op.Result) : Disk.note op r d₁ = d₁ := by cases hcalls <;> rfl
    refine wp_disk_quiet hs₁.logsUp hnote fun r h' k' hact hstore => ⟨hact, ?_, rfl⟩
    cases hcalls <;> exact hstore
  · obtain ⟨⟨h₁, k₁⟩, d₁⟩ := v
    obtain rfl : h₁ = h.connect connection.sockFd := hview
    obtain ⟨rfl, rfl⟩ : k₁ = k ∧ d₁ = d := hkd
    exact hQ connection hfree

theorem wp_disk_start {port : Int32} (hunused : h.Unused) (hc : Correlated ops k₀ [] (h, k)) :
    wp (diskEnv ops (LogsUp ops k₀ (serverLogFn port))) (listenCode port .start)
      (ServerLogs ops k₀ (serverLogFn port)) ((h, k), .empty) := by
  have hs : LogsAll ops k₀ (serverLogFn port) ((h, k), .empty) :=
    ⟨[], hc, fun _ log hfile => by cases hfile⟩
  rw [listenCode, wp_bind]
  refine wp_disk_tcpListen hs fun fd _ => ?_
  have hs : LogsAll ops k₀ (serverLogFn port) ((h.openFile fd .socket, k), .empty) :=
    hs.of_eq rfl rfl rfl (Nat.le_refl _) rfl
  dsimp only
  rw [wp_bind]
  refine wp_disk hs.logsUp fun r h' k' hact hstore => ?_
  obtain rfl : k' = k := hstore
  rcases r with _ | logFd
  · exact hact.elim
  obtain ⟨hnew, rfl⟩ := hact
  have hne : fd ≠ logFd := by
    rintro rfl
    simp [Host.openFile] at hnew
  rw [Disk.note_creat]
  refine .accept ?_ ?_ hunused (hc.of_eq rfl rfl rfl (Nat.le_refl _)) fun _ _ => rfl
  · simp [Host.openFile, hne]
  · simp [Host.openFile]

theorem wp_disk_accept {port : Int32} {listenSockFd logFd : Fd}
    (hlisten : h.files listenSockFd = some .socket) (hlog : h.files logFd = some .log)
    (hunused : h.Unused) (hc : Correlated ops k₀ xs (h, k))
    (hlogged : 0 ≤ logFd → AllHandled xs h → logged = serverLog xs) :
    wp (diskEnv ops (LogsUp ops k₀ (serverLogFn port)))
      (listenCode port (.accept listenSockFd logFd)) (ServerLogs ops k₀ (serverLogFn port))
      ((h, k), .opened logFd (serverLogFn port) logged) := by
  have hs := @logsAll_opened _ _ _ _ _ _ (serverLogFn port) _ _ hc hlogged
  rw [listenCode, wp_bind, uninitConnection, wp_map]
  refine wp_disk_quiet hs.logsUp (fun _ => rfl) fun r h' k' hact hstore => ?_
  obtain rfl : k' = k := hstore
  obtain rfl : h' = h := hact
  rw [wp_bind]
  refine wp_disk_tcpAccept hs fun connection hnew => ?_
  have hne {fd : Fd} {file : File} (hfd : h'.files fd = some file) : fd ≠ connection.sockFd :=
    Host.fd_ne hfd hnew (Option.some_ne_none _)
  refine .serve ?_ ?_ (fun n hn => hunused n (Nat.le_of_succ_le hn)) ?_ rfl
    (hc.of_eq rfl rfl rfl (Nat.le_succ _)) ?_ fun hfd hall => hlogged hfd fun n => hall n
  · simp [Host.connect, Host.openFile, hne hlisten, hlisten]
  · simp [Host.connect, Host.openFile, hne hlog, hlog]
  · simp [Host.connect, Host.openFile]
  · obtain ⟨hgot, hsent⟩ := hc.upToDate (hunused h'.conns (Nat.le_refl _))
    exact ⟨hgot, hsent⟩

/-- How much of the log file is there, in each part of a round. -/
theorem LoggedRound.logsUp {logFd : Fd} {more : Bytes} (hr : LoggedRound ops k logFd n (e, more))
    (hc : Correlated ops k₀ xs (h, k)) (hup : UpToDate xs h n) (hlast : n + 1 = h.conns)
    (hlogged : 0 ≤ logFd → AllHandled xs h → logged = serverLog xs) :
    LogsUp ops k₀ path ((h.after n e, e.store), .opened logFd path (logged ++ more)) := by
  rcases hr with ⟨hsent, hstore, hnothing⟩ |
    ⟨request, response, hgot, hsent, hhandles, hanswers, htimed, hrecords⟩
  · dsimp only at hsent hstore hnothing
    refine (logsAll_opened (hc.silent hsent hstore) fun hfd hall => ?_).logsUp
    obtain ⟨hgot, hall⟩ := hall.of_silent hup
    rw [hnothing hgot, List.append_nil, hlogged hfd hall]
  · refine ⟨_, hc.answering hup hlast hgot hsent hhandles hanswers htimed,
      fun hall log hfile => ?_⟩
    by_cases hfd : 0 ≤ logFd
    · obtain ⟨missing, hshort, hmissing⟩ := hrecords hfd
      rw [Disk.file_opened hfd, Option.some.injEq] at hfile
      refine ⟨missing, hshort, ?_⟩
      rw [← hfile, List.append_assoc, hmissing, hlogged hfd (hall.of_answered hup),
        serverLog_append]
    · rw [Disk.file_opened_of_neg hfd] at hfile
      cases hfile

/-- A round that ends leaves all of its records. -/
theorem LoggedOutcome.recorded {logFd : Fd} {action : Option RpcAction} {more : Bytes}
    (ho : LoggedOutcome ops k logFd n action (e, more)) (hc : Correlated ops k₀ xs (h, k))
    (hup : UpToDate xs h n) (hlast : n + 1 = h.conns)
    (hlogged : 0 ≤ logFd → AllHandled xs h → logged = serverLog xs) :
    ∃ xs, Correlated ops k₀ xs (h.after n e, e.store) ∧
      (action = none → UpToDate xs (h.after n e) n) ∧
      (0 ≤ logFd → AllHandled xs (h.after n e) → logged ++ more = serverLog xs) := by
  cases ho with
  | silent hsent hstore hnothing =>
    refine ⟨xs, hc.silent hsent hstore, by simp, fun hfd hall => ?_⟩
    obtain ⟨hgot, hall⟩ := hall.of_silent hup
    rw [hnothing hgot, List.append_nil, hlogged hfd hall]
  | @answered _ _ _ request response hgot hsent hhandles hanswers htimed hrecords =>
    refine ⟨_, hc.answering hup hlast hgot (hsent ▸ List.prefix_refl _) hhandles hanswers htimed,
      fun _ => ⟨?_, ?_⟩, fun hfd hall => ?_⟩
    · simp [Host.after, hup.got, hgot]
    · simp [Host.after, hup.sent, hsent]
    · rw [hrecords hfd, hlogged hfd (hall.of_answered hup), serverLog_append]

theorem wp_disk_serve {port : Int32} {listenSockFd logFd : Fd} {connection : Connection}
    (hlisten : h.files listenSockFd = some .socket) (hlog : h.files logFd = some .log)
    (hunused : h.Unused) (hsock : h.files connection.sockFd = some (.connection n))
    (hlast : n + 1 = h.conns) (hc : Correlated ops k₀ xs (h, k)) (hup : UpToDate xs h n)
    (hlogged : 0 ≤ logFd → AllHandled xs h → logged = serverLog xs) :
    wp (diskEnv ops (LogsUp ops k₀ (serverLogFn port)))
      (listenCode port (.serve listenSockFd logFd connection))
      (ServerLogs ops k₀ (serverLogFn port)) ((h, k), .opened logFd (serverLogFn port) logged) := by
  have hne {fd : Fd} {file : File} (hfd : h.files fd = some file) (hfile : file ≠ .connection n) :
      fd ≠ connection.sockFd := Host.fd_ne hfd hsock (mt Option.some.inj hfile)
  rw [listenCode, wp_bind]
  refine wp_mono (wp_disk_connection hsock hlog (fun e more hr => hr.logsUp hc hup hlast hlogged)
    (wp_loggedEnd_serveMessage (n := n) (hne hlog (by simp)))) ?_
  rintro action _ ⟨e, more, rfl, houtcome⟩
  have hunused' : (h.after n e).Unused := hunused.after (Nat.lt_of_succ_le (Nat.le_of_eq hlast))
  obtain ⟨xs, hc, hup, hlogged⟩ := houtcome.recorded hc hup hlast hlogged
  cases action with
  | none => exact .serve hlisten hlog hunused' hsock hlast hc (hup rfl) hlogged
  | some action =>
    dsimp only
    rw [wp_bind]
    refine wp_disk_quiet (logsAll_opened hc hlogged).logsUp
      (Disk.note_close_of_ne (hne hlog (by simp)).symm) fun r h' k' hact hstore => ?_
    obtain rfl : k' = e.store := hstore
    obtain ⟨rfl, -, rfl⟩ := hact
    have hc : Correlated ops k₀ xs ((h.after n e).close connection.sockFd, e.store) :=
      hc.of_eq rfl rfl rfl (Nat.le_refl _)
    cases action with
    | CONTINUE =>
      refine .accept ?_ ?_ hunused' hc hlogged
      · simp [Host.close, Host.after, hne hlisten (by simp), hlisten]
      · simp [Host.close, Host.after, hne hlog (by simp), hlog]
    | QUIT => exact .left rfl (logsAll_opened hc hlogged)

/-- The log file of a listener thread keeps up with what it has sent, in each round of its code. -/
theorem ServerLogs.wp_listenCode {port : Int32} {pc : ListenPc} {v : (Host × κ) × Disk}
    (hs : ServerLogs ops k₀ (serverLogFn port) pc v) (hgo : pc.over = false) :
    wp (diskEnv ops (LogsUp ops k₀ (serverLogFn port))) (listenCode port pc)
      (ServerLogs ops k₀ (serverLogFn port)) v := by
  cases hs with
  | start hunused hc => exact wp_disk_start hunused hc
  | accept hlisten hlog hunused hc hlogged => exact wp_disk_accept hlisten hlog hunused hc hlogged
  | serve hlisten hlog hunused hsock hlast hc hup hlogged =>
    exact wp_disk_serve hlisten hlog hunused hsock hlast hc hup hlogged
  | left hleft hall =>
    cases pc with
    | closing listenSockFd logFd =>
      obtain ⟨⟨h, k⟩, d⟩ := v
      rw [listenCode, wp_bind]
      refine wp_disk hall.logsUp fun r h' k' hact hstore => ?_
      obtain rfl : k' = k := hstore
      obtain ⟨rfl, -, rfl⟩ := hact
      have hall := @LogsAll.of_eq _ _ _ _ _ _ _ (h.close listenSockFd)
        (Disk.note (.close listenSockFd) true d) hall rfl rfl rfl (Nat.le_refl _) rfl
      rw [wp_bind]
      refine wp_disk hall.logsUp fun r h' k'' hact hstore => ?_
      obtain rfl : k'' = k' := hstore
      obtain ⟨rfl, -, rfl⟩ := hact
      exact .left rfl (hall.of_eq rfl rfl rfl (Nat.le_refl _) rfl)
    | returned => cases hgo
    | exited => cases hgo
    | _ => cases hleft

end Server

end SoftwareDynamics.Network

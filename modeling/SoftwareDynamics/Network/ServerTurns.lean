import SoftwareDynamics.Network.Turns

/-! The server takes turns: it waits for a request only after it has answered all before it, and for
a connection only after it has closed all before it, unless it is told to quit. -/

namespace SoftwareDynamics.Network

open ProofKit Prog

section Serving

variable {connection : Connection} {logFd : Fd}

/-- A round of serving a connection reads only before it answers. -/
theorem wp_serveMessage_waits (hlog : logFd ≠ connection.sockFd) :
    wp ((watched connection logFd .shared (Round .shared ())).guard (ReadsInTurn Side.server.lead))
      (serveMessage connection logFd) (Outcome .shared ()) (.fresh ()) := by
  refine Env.wp_guard_bind (wp_serveMessage hlog) ?_ fun message => ?_
  · exact wp_recvStamped_waits rfl ⟨[], rfl, rfl⟩ (fun got => .inl ⟨rfl, rfl⟩)
      (wp_recvStamped (fun _ => .inl ⟨rfl, rfl⟩) (fun _ _ => trivial) (fun _ _ => trivial)
        fun _ _ => trivial)
  · cases message with
    | none => exact only_pure _
    | some message =>
      refine (log_only (fun _ _ => trivial) _).bind fun _ => ?_
      exact processCommand_only_of (fun _ _ => trivial) (fun _ _ => trivial) (fun _ => trivial)
        (fun _ _ => trivial) (fun _ _ _ => trivial) (fun _ _ => trivial) message

theorem Round.carries {args : Args} {e : Endpoint Unit} (hr : Round .shared () e) :
    Streams (Side.server.Says args) e.sent := by
  rcases hr with ⟨hsent, -⟩ | ⟨request, response, -, hsent, -⟩
  · rw [hsent]
    exact .nil
  · exact .of_frame trivial hsent

variable {args : Args} {n : Nat} {v v' : Host × Host} {e : Endpoint Unit}

theorem Command.str_mem_methods (command : Command) : command.str ∈ methods := by
  cases command <;> decide

/-- A round answers one request, or ends where the client has closed the connection. -/
theorem Talking.served (ht : Talking args .server connection.sockFd logFd n v)
    (hw : Went args .server n v e v') (hquit : args.command ≠ .Quit) {action : Option RpcAction}
    (ho : Outcome .shared () action e) :
    (action = none ∧ Talking args .server connection.sockFd logFd n v') ∨
      (action = some .CONTINUE ∧ v'.2.closed n ∧ InTurn args .server v') := by
  have hheard := ht.heard_next hw
  have hin := ht.inTurn hw ho.round.carries
  cases ho with
  | ended _ _ hended => exact .inr ⟨rfl, hw.ended hended, hin⟩
  | rejected _ _ hnone => exact absurd hnone hheard.not_rejected
  | @unknown _ request _ _ hgot hunknown =>
    have hname : request.methodName = args.command.str := (hgot ▸ hheard).of_toBytes
    exact absurd (hname ▸ args.command.str_mem_methods) hunknown
  | @answered _ request response _ hgot hsent =>
    have hname : request.methodName = args.command.str := (hgot ▸ hheard).of_toBytes
    refine .inl ⟨?_, ht.went hw (.of_frame trivial (by rw [hsent]))
      ⟨[response], [request], by simpa using hsent, by simpa using hgot, rfl⟩⟩
    rw [Frame.action, if_neg]
    rw [hname]
    revert hquit
    cases args.command <;> decide

end Serving

section Listening

variable {args : Args} {h peer : Host} {v v' : Host × Host}

/-- What holds at the control points of a listener thread that is not told to quit. -/
inductive ServerTurns (args : Args) : ListenPc → Host × Host → Prop
  | start {v : Host × Host} : InTurn args .server v → v.1.conns = 0 → v.1.Opens [] →
      ServerTurns args .start v
  | accept {listenSockFd logFd : Fd} {v : Host × Host} : InTurn args .server v →
      v.1.files listenSockFd = some .socket → v.1.files logFd = some .log →
      v.1.Opens [logFd, listenSockFd] → (∀ n < v.1.conns, v.1.closed n) →
      ServerTurns args (.accept listenSockFd logFd) v
  | serve {listenSockFd logFd : Fd} {connection : Connection} {n : Nat} {v : Host × Host} :
      Talking args .server connection.sockFd logFd n v → v.1.files listenSockFd = some .socket →
      v.1.Opens [connection.sockFd, logFd, listenSockFd] →
      ServerTurns args (.serve listenSockFd logFd connection) v

theorem ServerTurns.inTurn {pc : ListenPc} (hs : ServerTurns args pc v) :
    InTurn args .server v := by
  cases hs with
  | start hk => exact hk
  | accept hk => exact hk
  | serve ht => exact ht.toInTurn

theorem ServerTurns.mono {pc : ListenPc} (hs : ServerTurns args pc v) (hR : PeerGrows v v') :
    ServerTurns args pc v' := by
  obtain ⟨h, peer⟩ := v
  obtain ⟨_, peer'⟩ := v'
  obtain ⟨rfl, hpeer⟩ := hR
  cases hs with
  | start hk hconns ho => exact .start (hk.mono hpeer) hconns ho
  | accept hk hlisten hlog ho hclosed => exact .accept (hk.mono hpeer) hlisten hlog ho hclosed
  | serve ht hlisten ho => exact .serve (ht.mono hpeer) hlisten ho

theorem ServerTurns.over_eq_false {pc : ListenPc} (hs : ServerTurns args pc v) :
    pc.over = false := by
  cases hs <;> rfl

theorem wp_turn_tcpListen {port : UInt16} {backlog : Int32}
    {Q : Except Errno Fd → Host × Host → Prop} (hk : InTurn args .server (h, peer))
    (ho : h.Opens [])
    (hQ : ∀ fd peer', peer.Grows peer' → Q (.ok fd) (h.openFile fd .socket, peer')) :
    wp (turnEnv args .server) (tcpListen port backlog) Q (h, peer) := by
  have opened (fd : Fd) (peer' : Host) (hle : peer.Grows peer') :
      InTurn args .server (h.openFile fd .socket, peer') := hk.quiet hle rfl rfl rfl rfl
  refine wp_listens Prod.fst (fun v => peer.Grows v.2) (fun v op hcalls hle => ?_) (.refl peer)
    fun fd v hfree hview hle => ?_
  · obtain ⟨h₁, peer₁⟩ := v
    cases hcalls with
    | socket =>
      exact wp_turn (hk.mono hle) (ho.exists_free (by simp)) trivial
        fun r h' peer' hact hle' _ => ⟨hact, hle.trans hle'⟩
    | bind | listen =>
      refine wp_turn (opened _ peer₁ hle) ?_ trivial
        fun r h' peer' hact hle' _ => ⟨hact, hle.trans hle'⟩
      exact Function.update_self ..
  · obtain ⟨h₁, peer₁⟩ := v
    obtain rfl : h₁ = h.openFile fd .socket := hview
    exact hQ fd peer₁ hle

theorem wp_turn_tcpAccept {fd logFd : Fd} {connection : Connection}
    {Q : Except Errno Unit × Connection → Host × Host → Prop}
    (hk : InTurn args .server (h, peer)) (hlisten : h.files fd = some .socket)
    (hlog : h.files logFd = some .log) (ho : h.Opens [logFd, fd])
    (hclosed : ∀ n < h.conns, h.closed n)
    (hQ : ∀ (connection : Connection) n h' peer',
      Talking args .server connection.sockFd logFd n (h', peer') → h'.files fd = some .socket →
      h'.Opens [connection.sockFd, logFd, fd] → Q (.ok (), connection) (h', peer')) :
    wp (turnEnv args .server) (tcpAccept fd connection) Q (h, peer) := by
  have hne {fd' peerFd : Fd} {file : File} (hfree : h.files peerFd = none)
      (hfd' : h.files fd' = some file) : fd' ≠ peerFd :=
    Host.fd_ne hfd' hfree (Option.some_ne_none _)
  have hlisten' (peerFd : Fd) (hfree : h.files peerFd = none) :
      (h.connect peerFd).files fd = some .socket := by
    simp [Host.connect, Host.openFile, hne hfree hlisten, hlisten]
  refine wp_accepts Prod.fst (fun v => InTurn args .server v ∧ peer.Grows v.2)
    (fun v op hcalls hI => ?_) ⟨hk, .refl peer⟩ fun connection v hfree hview hI => ?_
  · obtain ⟨h₁, peer₁⟩ := v
    obtain ⟨hk₁, hle⟩ := hI
    cases hcalls with
    | accept =>
      refine wp_turn hk₁ ⟨hlisten, ho.exists_free (by simp)⟩ ⟨rfl, hclosed⟩
        fun r h' peer' hact hle' htold => ?_
      obtain ⟨peerFd, addr, rfl, -, rfl⟩ := Host.act_accept hact
      exact ⟨hact, hk₁.connect hle' htold, hle.trans hle'⟩
    | getsockname hfree =>
      refine wp_turn hk₁ trivial trivial fun r h' peer' hact hle' _ => ?_
      obtain ⟨addr, rfl, rfl⟩ := Host.act_getsockname hact
      exact ⟨hact, hk₁.mono hle', hle.trans hle'⟩
  · obtain ⟨h₁, peer₁⟩ := v
    obtain rfl : h₁ = h.connect connection.sockFd := hview
    have ht := hk.talking hI.1 hclosed hlog (hne hfree hlog) fun _ => ⟨fd, hlisten' _ hfree⟩
    exact hQ _ _ _ _ ht (hlisten' _ hfree) (ho.connect connection.sockFd)

/-- A listener thread answers a request, or closes a connection that the client has closed. -/
theorem wp_turn_serve {port : Int32} {listenSockFd logFd : Fd} {connection : Connection} {n : Nat}
    (hquit : args.command ≠ .Quit)
    (ht : Talking args .server connection.sockFd logFd n (h, peer))
    (hlisten : h.files listenSockFd = some .socket)
    (ho : h.Opens [connection.sockFd, logFd, listenSockFd]) :
    wp (turnEnv args .server) (listenCode port (.serve listenSockFd logFd connection))
      (ServerTurns args) (h, peer) := by
  rw [listenCode, wp_bind]
  refine wp_mono (ht.wp (fun e => Round.carries) (wp_serveMessage_waits ht.log_ne)) ?_
  rintro action ⟨h', peer'⟩ ⟨e, hw, hoc⟩
  have hown : h' = h.after n e := hw.own
  have hlisten' : h'.files listenSockFd = some .socket := by
    rw [hown]
    exact hlisten
  have ho' : h'.Opens [connection.sockFd, logFd, listenSockFd] := by
    rw [hown]
    exact ho
  rcases ht.served hw hquit hoc with ⟨rfl, ht'⟩ | ⟨rfl, hclient, hk'⟩
  · exact .serve ht' hlisten' ho'
  · have hlog' : h'.files logFd = some .log := by
      rw [hown]
      exact ht.log
    have hsock' : h'.files connection.sockFd = some (.connection n) := by
      rw [hown]
      exact ht.sock
    have hlast' : n + 1 = h'.conns := by
      rw [hown]
      exact ht.last
    have hearlier' : ∀ m < n, h'.closed m := by
      rw [hown]
      exact ht.earlier
    dsimp only
    rw [wp_bind]
    refine wp_turn hk' (Host.enables_close hsock') trivial fun r h'' peer'' hact hle _ => ?_
    obtain ⟨rfl, -, rfl⟩ := hact
    refine .accept (hk'.close hle hsock' (Nat.lt_of_succ_le (Nat.le_of_eq hlast')) ?_) ?_ ?_
      ho'.close (Host.closed_of_close hsock' hlast' hearlier')
    · exact hle.closed n hclient
    · rwa [Host.close_files _ (ht.fd_ne hlisten (by simp))]
    · rwa [Host.close_files _ ht.log_ne]

/-- A listener thread takes turns in each round of its code. -/
theorem ServerTurns.wp_listenCode {port : Int32} {pc : ListenPc} (hs : ServerTurns args pc v)
    (hquit : args.command ≠ .Quit) :
    wp (turnEnv args .server) (listenCode port pc) (ServerTurns args) v := by
  obtain ⟨h, peer⟩ := v
  cases hs with
  | start hk hconns ho =>
    rw [listenCode, wp_bind]
    refine wp_turn_tcpListen hk ho fun fd peer₁ hle₁ => ?_
    have hk₁ : InTurn args .server (h.openFile fd .socket, peer₁) :=
      hk.quiet hle₁ rfl rfl rfl rfl
    have ho₁ := ho.openFile fd .socket
    dsimp only
    rw [wp_bind]
    refine wp_turn hk₁ (ho₁.exists_free (by simp)) trivial fun r h' peer₂ hact hle₂ _ => ?_
    rcases r with _ | logFd
    · exact hact.elim
    obtain ⟨hfree, rfl⟩ := hact
    have hne : fd ≠ logFd := by
      rintro rfl
      simp [Host.openFile] at hfree
    refine .accept (hk₁.quiet hle₂ rfl rfl rfl rfl) ?_ ?_ (ho₁.openFile logFd .log)
      fun n hn => ?_
    · simp [Host.openFile, hne]
    · simp [Host.openFile]
    · have hn : n < h.conns := hn
      rw [show h.conns = 0 from hconns] at hn
      exact absurd hn (Nat.not_lt_zero n)
  | accept hk hlisten hlog ho hclosed =>
    rw [listenCode, wp_bind, uninitConnection, wp_map]
    refine wp_turn hk trivial trivial fun r h' peer₁ hact hle₁ _ => ?_
    obtain rfl : h' = h := hact
    rw [wp_bind]
    exact wp_turn_tcpAccept (hk.mono hle₁) hlisten hlog ho hclosed
      fun connection n h' peer' ht hlisten' ho' => .serve ht hlisten' ho'
  | serve ht hlisten ho => exact wp_turn_serve hquit ht hlisten ho

end Listening

end SoftwareDynamics.Network

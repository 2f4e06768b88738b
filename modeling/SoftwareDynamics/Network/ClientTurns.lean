import SoftwareDynamics.Network.Turns

/-! The client takes turns: it waits for a response after each of its requests, and closes a
connection only when it has got a response to each of them.  It never fails. -/

namespace SoftwareDynamics.Network

open ProofKit Prog

section Requesting

variable {args : Args} {connection : Connection} {logFd : Fd} {i j : Nat} {nextRpcId : UInt32}

/-- How a client goes on from a request, which it has sent. -/
inductive Asked (args : Args) (logFd : Fd) (i : Nat) (connection : Connection) (j : Nat) :
    ClientPc → Endpoint Unit → Prop
  | ended {e : Endpoint Unit} : e.ended → Asked args logFd i connection j (.exited 1) e
  | rejected {e : Endpoint Unit} : (∀ rest, Frame.first (e.got ++ rest) = none) →
      Asked args logFd i connection j (.exited 1) e
  | accepted {request raw response : Frame} {nextRpcId : UInt32} {e : Endpoint Unit} :
      Side.client.Says args request → e.sent = request.toBytes → e.got = raw.toBytes →
      Asked args logFd i connection j (.accepted logFd i nextRpcId connection j response) e

/-- A client reads only after it has sent its request. -/
theorem wp_client_waits {body : Bytes} (hlog : logFd ≠ connection.sockFd)
    (hbody : args.Body j body) (hshort : body.length < 2 ^ 32) :
    wp ((watched connection logFd .shared fun e => Streams (Side.client.Says args) e.sent).guard
        (ReadsInTurn Side.client.lead)) (do
      let (_, nextRpcId) ← rpcSendReq connection body 0 args.commandStr logFd nextRpcId
      let some response ← rpcRecvResp connection | return .exited 1
      return .accepted logFd i nextRpcId connection j response)
      (Asked args logFd i connection j) (.fresh ()) := by
  have hsaid (request : Frame)
      (hrequest : request.Requests connection body 0 args.commandStr nextRpcId) :
      Side.client.Says args request := Args.Asks.methodName ⟨body, hbody, hrequest⟩
  rw [wp_bind]
  refine Env.wp_guard_of_only (rpcSendReq_only (fun _ _ => trivial) (fun _ _ => trivial)
    (fun _ => trivial) (fun _ _ => trivial) _ _ _ _) ?_
  refine wp_rpcSendReq_watched hshort hlog .nil (fun _ => .nil)
    (fun request hrequest now sent hsent => .of_frame (hsaid request hrequest) hsent)
    fun request hrequest => ?_
  have hcarries : Streams (Side.client.Says args) request.toBytes :=
    .of_frame (hsaid request hrequest) (List.prefix_refl _)
  dsimp only
  rw [wp_bind]
  refine wp_recvStamped_waits rfl ⟨[request], ?_, rfl⟩ (fun _ => hcarries) ?_
  · simp [Endpoint.send, Endpoint.fresh, Endpoint.look]
  refine wp_recvStamped (fun _ => hcarries) (fun _ _ => .ended rfl)
    (fun _ hnone => .rejected hnone) fun raw now => ?_
  exact .accepted (hsaid request hrequest) rfl rfl

end Requesting

section Client

variable {stored : Bool} {args : Args} {h peer : Host} {v v' : Host × Host}
  {connection : Connection} {logFd : Fd} {i j n : Nat} {nextRpcId : UInt32}

/-- What holds at the control points of a client. -/
inductive ClientTurns (args : Args) : ClientPc → Host × Host → Prop
  | start {v : Host × Host} : InTurn args .client v → v.1.conns = 0 → v.1.Opens [] →
      ClientTurns args .start v
  | connect {logFd : Fd} {i : Nat} {nextRpcId : UInt32} {v : Host × Host} :
      InTurn args .client v → v.1.files logFd = some .log → v.1.Opens [logFd] →
      (∀ n < v.1.conns, v.1.closed n) → ClientTurns args (.connect logFd i nextRpcId) v
  | request {logFd : Fd} {i : Nat} {nextRpcId : UInt32} {connection : Connection} {j n : Nat}
      {v : Host × Host} : Talking args .client connection.sockFd logFd n v →
      v.1.Opens [connection.sockFd, logFd] →
      ClientTurns args (.request logFd i nextRpcId connection j) v
  | accepted {logFd : Fd} {i : Nat} {nextRpcId : UInt32} {connection : Connection} {j n : Nat}
      {response : Frame} {v : Host × Host} : Talking args .client connection.sockFd logFd n v →
      v.1.Opens [connection.sockFd, logFd] →
      ClientTurns args (.accepted logFd i nextRpcId connection j response) v
  | wait {logFd : Fd} {i : Nat} {nextRpcId : UInt32} {connection : Connection} {j n : Nat}
      {response : Frame} {v : Host × Host} : Talking args .client connection.sockFd logFd n v →
      v.1.Opens [connection.sockFd, logFd] →
      ClientTurns args (.wait logFd i nextRpcId connection j response) v
  | exited {v : Host × Host} : InTurn args .client v → ClientTurns args (.exited 0) v

theorem ClientTurns.inTurn {pc : ClientPc} (hs : ClientTurns args pc v) :
    InTurn args .client v := by
  cases hs with
  | start hk => exact hk
  | connect hk => exact hk
  | request ht => exact ht.toInTurn
  | accepted ht => exact ht.toInTurn
  | wait ht => exact ht.toInTurn
  | exited hk => exact hk

theorem ClientTurns.mono {pc : ClientPc} (hs : ClientTurns args pc v) (hR : PeerGrows v v') :
    ClientTurns args pc v' := by
  obtain ⟨h, peer⟩ := v
  obtain ⟨_, peer'⟩ := v'
  obtain ⟨rfl, hpeer⟩ := hR
  cases hs with
  | start hk hconns ho => exact .start (hk.mono hpeer) hconns ho
  | connect hk hlog ho hclosed => exact .connect (hk.mono hpeer) hlog ho hclosed
  | request ht ho => exact .request (ht.mono hpeer) ho
  | accepted ht ho => exact .accepted (ht.mono hpeer) ho
  | wait ht ho => exact .wait (ht.mono hpeer) ho
  | exited hk => exact .exited (hk.mono hpeer)

/-- A client that is over has not failed. -/
theorem ClientTurns.eq_exited {pc : ClientPc} (hs : ClientTurns args pc v) (hover : pc.over) :
    pc = .exited 0 := by
  cases hs with
  | exited => rfl
  | _ => cases hover

theorem wp_turn_tcpConnect {server : CString} {port : UInt16}
    {Q : Except Errno Connection → Host × Host → Prop} (hk : InTurn args .client (h, peer))
    (hlog : h.files logFd = some .log) (ho : h.Opens [logFd]) (hclosed : ∀ n < h.conns, h.closed n)
    (hQ : ∀ (connection : Connection) n h' peer',
      Talking args .client connection.sockFd logFd n (h', peer') →
      h'.Opens [connection.sockFd, logFd] → Q (.ok connection) (h', peer')) :
    wp (turnEnv args .client) (tcpConnect server port) Q (h, peer) := by
  have opened (sockFd : Fd) (peer' : Host) (hle : peer.Grows peer') :
      InTurn args .client (h.openFile sockFd .socket, peer') := hk.quiet hle rfl rfl rfl rfl
  have talking (sockFd : Fd) (hfree : h.files sockFd = none) (peer' : Host)
      (hle : peer.Grows peer') : Talking args .client sockFd logFd h.conns
        ((h.openFile sockFd .socket).connect sockFd, peer') := by
    have hk' := opened sockFd peer' hle
    have hne := Host.fd_ne hlog hfree (Option.some_ne_none _)
    exact hk'.talking (hk'.connect (.refl peer') (Nat.lt_succ_self _)) hclosed
      (by simp [Host.openFile, hne, hlog]) hne fun hserver => by cases hserver
  refine wp_connects Prod.fst (fun v => peer.Grows v.2) (fun v op hcalls hle => ?_) (.refl peer)
    fun connection v hfree hview hle => ?_
  · obtain ⟨h₁, peer₁⟩ := v
    cases hcalls with
    | socket =>
      exact wp_turn (hk.mono hle) (ho.exists_free (by simp)) trivial
        fun r h' peer' hact hle' _ => ⟨hact, hle.trans hle'⟩
    | connect =>
      refine wp_turn (opened _ peer₁ hle) ?_ rfl
        fun r h' peer' hact hle' _ => ⟨hact, hle.trans hle'⟩
      exact Function.update_self ..
    | getsockname hfree =>
      exact wp_turn (talking _ hfree peer₁ hle).toInTurn trivial trivial
        fun r h' peer' hact hle' _ => ⟨hact, hle.trans hle'⟩
    | inetPton | indeterminate =>
      exact wp_turn (opened _ peer₁ hle) trivial trivial
        fun r h' peer' hact hle' _ => ⟨hact, hle.trans hle'⟩
  · obtain ⟨h₁, peer₁⟩ := v
    obtain rfl : h₁ = (h.openFile connection.sockFd .socket).connect connection.sockFd := hview
    exact hQ _ _ _ _ (talking _ hfree peer₁ hle)
      (((ho.openFile connection.sockFd .socket).connect connection.sockFd).of_subset (by simp))

/-- A client makes its request, and gets a response to it. -/
theorem wp_turn_request {nextRpcId : UInt32} (hreadable : args.Readable stored j)
    (hfits : args.Fits j)
    (ht : Talking args .client connection.sockFd logFd n v)
    (ho : v.1.Opens [connection.sockFd, logFd]) :
    wp (turnEnv args .client) (clientCode stored args (.request logFd i nextRpcId connection j))
      (ClientTurns args) v := by
  obtain ⟨h, peer⟩ := v
  rw [clientCode]
  split_ifs
  · refine wp_mono (ht.wp (Q := Asked args logFd i connection j) (fun _ => id) ?_) ?_
    · rw [wp_bind]
      exact wp_requestBody_readable hreadable hfits ⟨⟨trivial, .nil, trivial⟩, fun _ _ hact => hact⟩
        fun body hbody hshort => wp_client_waits ht.log_ne hbody hshort
    · rintro pc ⟨h', peer'⟩ ⟨e, hw, hasked⟩
      have hheard := ht.heard_next hw
      have hown : h' = h.after n e := hw.own
      have hopen : h'.closed n = false := by
        rw [hown]
        exact ht.isOpen
      cases hasked with
      -- The server closes a connection only behind the client, which has not closed this one.
      | ended hended =>
        have hclosed : h'.closed n = true := hw.ended hended
        rw [hopen] at hclosed
        cases hclosed
      | rejected hnone => exact absurd hnone hheard.not_rejected
      | @accepted request raw _ _ _ hsaid hsent hgot =>
        refine .accepted (ht.went hw (.of_frame hsaid (by rw [hsent]))
          ⟨[request], [raw], by simpa using hsent, by simpa using hgot, rfl⟩) ?_
        rw [hown]
        exact ho
  · have hsock : h.files connection.sockFd = some (.connection n) := ht.sock
    rw [wp_bind]
    refine wp_turn ht.toInTurn (Host.enables_close hsock) trivial
      fun r h' peer' hact hle _ => ?_
    obtain ⟨rfl, -, rfl⟩ := hact
    refine .connect (ht.close hle hsock (Nat.lt_of_succ_le (Nat.le_of_eq ht.last)) ?_) ?_ ho.close
      (Host.closed_of_close hsock ht.last ht.earlier)
    · exact (h.close_closed _ n).mpr (.inl hsock)
    · rw [Host.close_files _ ht.log_ne]
      exact ht.log

/-- A part of the code that neither gets nor sends anything. -/
theorem wp_turn_silent {α : Type} {p : Sys α} {fds : List Fd}
    (ht : Talking args .client connection.sockFd logFd n v) (ho : v.1.Opens fds)
    (hp : p.Only fun op => ∀ e : Endpoint Unit, ReadsInTurn Side.client.lead e op) {R : α → Prop}
    (h : wp (watched connection logFd .shared fun e => Streams (Side.client.Says args) e.sent) p
      (fun a e => R a ∧ e.got = [] ∧ e.sent = []) (.fresh ())) :
    wp (turnEnv args .client) p
      (fun a v' => R a ∧ Talking args .client connection.sockFd logFd n v' ∧ v'.1.Opens fds) v := by
  refine wp_mono (ht.wp (fun _ => id) (Env.wp_guard_of_only hp h)) ?_
  rintro a v' ⟨e, hw, hR, hgot, hsent⟩
  refine ⟨hR, ht.went hw ?_ ⟨[], [], hsent, hgot, rfl⟩, ?_⟩
  · rw [hsent]
    exact .nil
  · rw [hw.own]
    exact ho

/-- A client takes turns in each round of its code. -/
theorem ClientTurns.wp_clientCode {pc : ClientPc} (hs : ClientTurns args pc v)
    (hreadable : ∀ j, args.Readable stored j) (hfits : ∀ j, args.Fits j) (hgo : pc.over = false) :
    wp (turnEnv args .client) (clientCode stored args pc) (ClientTurns args) v := by
  obtain ⟨h, peer⟩ := v
  cases hs with
  | start hk hconns ho =>
    rw [clientCode, wp_bind]
    refine wp_turn hk (ho.exists_free (by simp)) trivial fun r h' peer₁ hact hle₁ _ => ?_
    rcases r with _ | logFd
    · exact hact.elim
    obtain ⟨-, rfl⟩ := hact
    refine .connect (hk.quiet hle₁ rfl rfl rfl rfl) (by simp [Host.openFile])
      (ho.openFile logFd .log) fun n hn => ?_
    have hn : n < h.conns := hn
    rw [show h.conns = 0 from hconns] at hn
    exact absurd hn (Nat.not_lt_zero n)
  | connect hk hlog ho hclosed =>
    rw [clientCode]
    split_ifs
    · rw [wp_bind]
      exact wp_turn_tcpConnect hk hlog ho hclosed fun connection n h' peer' ht ho' =>
        .request ht ho'
    · exact .exited hk
  | @request _ _ _ _ j _ _ ht ho => exact wp_turn_request (hreadable j) (hfits j) ht ho
  | accepted ht ho =>
    rw [clientCode, wp_bind]
    refine wp_mono (wp_turn_silent (R := fun _ => True) ht ho (log_only (fun _ _ => trivial) _)
      (wp_log ht.log_ne .nil ⟨trivial, rfl, rfl⟩)) ?_
    rintro _ v' ⟨-, ht', ho'⟩
    exact .wait ht' ho'
  | wait ht ho =>
    rw [clientCode, wp_bind]
    refine wp_mono (wp_turn_silent (R := fun now => now.isSome) ht ho
      (nowUsec_only fun _ => trivial) (wp_nowUsec .nil fun _ => ⟨rfl, rfl, rfl⟩)) ?_
    rintro now v' ⟨hsome, ht', ho'⟩
    obtain ⟨now, rfl⟩ := Option.isSome_iff_exists.mp hsome
    dsimp only
    split_ifs
    · exact .wait ht' ho'
    · exact .request ht' ho'
  | exited => cases hgo

end Client

end SoftwareDynamics.Network

import SoftwareDynamics.Network.Stamps

/-! The order of the timestamps.  T1, T2, T3 and T4 of each response that the client accepts are
readings that have been made in this order, whichever way client and server interleave.  Where the
clocks of both hosts show the same time up to a fixed difference, the stamps bound this
difference. -/

namespace SoftwareDynamics.Network

open ProofKit Prog

section Opening

variable {side : Side} {h : Host} {readings : Readings} {logFd : Fd}

/-- Opening a descriptor does not change what has been got and sent. -/
theorem Stamped.openFile (hs : Stamped side (h, readings)) (fd : Fd) (file : File) :
    Stamped side (h.openFile fd file, readings) := hs.of_eq rfl rfl (Nat.le_refl _)

/-- Nothing has been got or sent on the next connection. -/
theorem Stamped.connect (hs : Stamped side (h, readings)) {fd : Fd} (hne : logFd ≠ fd)
    (hlog : h.files logFd = some .log) :
    Linked side fd logFd h.conns (h.connect fd, readings) ∧
      GotWhole h.conns (h.connect fd, readings) := by
  obtain ⟨hgot, hsent⟩ := hs.unused h.conns (Nat.le_refl _)
  refine ⟨{
    toStamped := hs.of_eq rfl rfl (Nat.le_succ _)
    log := by simp [Host.connect, Host.openFile, hne, hlog]
    sock := by simp [Host.connect, Host.openFile]
    opened := Nat.lt_succ_self _
    sent := by
      have hnone : (h.connect fd).sent h.conns = [] := hsent
      rw [hnone]
      exact .nil }, [], hgot⟩

theorem Linked.close {sockFd : Fd} {n : Nat} (hl : Linked side sockFd logFd n (h, readings)) :
    Stamped side (h.close sockFd, readings) ∧ (h.close sockFd).files logFd = some .log := by
  have hlog : h.files logFd = some .log := hl.log
  exact ⟨hl.toStamped.of_eq rfl rfl (Nat.le_refl _), by simp [Host.close, hl.log_ne, hlog]⟩

theorem wp_stamped_close {fd : Fd} {Q : Bool → Host × Readings → Prop}
    (hs : Stamped side (h, readings))
    (hQ : ∀ readings', readings <:+ readings' → Q true (h.close fd, readings')) :
    wp (stampEnv side) (sys (.close fd)) Q (h, readings) := by
  refine wp_stamped hs fun r h' readings' hle hact _ => ?_
  obtain ⟨rfl, -, rfl⟩ := hact
  exact hQ readings' hle

theorem wp_stamped_creat {path : Bytes} {Q : Option Fd → Host × Readings → Prop}
    (hs : Stamped side (h, readings))
    (hQ : ∀ fd readings', readings <:+ readings' → h.files fd = none →
      Q (some fd) (h.openFile fd .log, readings')) :
    wp (stampEnv side) (sys (.creat path)) Q (h, readings) := by
  refine wp_stamped hs fun r h' readings' hle hact _ => ?_
  rcases r with _ | fd
  · exact hact.elim
  obtain ⟨hfree, rfl⟩ := hact
  exact hQ fd readings' hle hfree

end Opening

section Server

variable {h : Host} {readings : Readings} {logFd : Fd} {n : Nat}

/-- What holds at the control points of a listener thread. -/
inductive ServerStamped : ListenPc → Host × Readings → Prop
  | start {h : Host} {readings : Readings} : Stamped .server (h, readings) →
      ServerStamped .start (h, readings)
  | accept {listenSockFd logFd : Fd} {h : Host} {readings : Readings} :
      Stamped .server (h, readings) → h.files logFd = some .log →
      ServerStamped (.accept listenSockFd logFd) (h, readings)
  | serve {listenSockFd logFd : Fd} {connection : Connection} {n : Nat} {h : Host}
      {readings : Readings} : Linked .server connection.sockFd logFd n (h, readings) →
      GotWhole n (h, readings) → ServerStamped (.serve listenSockFd logFd connection) (h, readings)
  | left {pc : ListenPc} {h : Host} {readings : Readings} : pc.left →
      Stamped .server (h, readings) → ServerStamped pc (h, readings)

theorem ServerStamped.stamped {pc : ListenPc} {v : Host × Readings} (hs : ServerStamped pc v) :
    Stamped .server v := by
  cases hs with
  | start hs => exact hs
  | accept hs => exact hs
  | serve hl => exact hl.toStamped
  | left _ hs => exact hs

theorem ServerStamped.mono {pc : ListenPc} {v v' : Host × Readings} (hR : ReadsOn v v')
    (hs : ServerStamped pc v) : ServerStamped pc v' := by
  obtain ⟨h', readings'⟩ := v'
  obtain ⟨rfl, hle⟩ := hR
  cases hs with
  | start hs => exact .start (hs.mono hle)
  | accept hs hlog => exact .accept (hs.mono hle) hlog
  | serve hl hgot => exact .serve (hl.mono hle) hgot
  | left hleft hs => exact .left hleft (hs.mono hle)

theorem wp_stamped_tcpListen {port : UInt16} {backlog : Int32}
    {Q : Except Errno Fd → Host × Readings → Prop} (hs : Stamped .server (h, readings))
    (hQ : ∀ fd readings', readings <:+ readings' → Q (.ok fd) (h.openFile fd .socket, readings')) :
    wp (stampEnv .server) (tcpListen port backlog) Q (h, readings) := by
  refine wp_listens Prod.fst (fun v => readings <:+ v.2) (fun v op hcalls hle => ?_)
    List.suffix_rfl fun fd v _ hview hle => ?_
  · obtain ⟨h₁, readings₁⟩ := v
    have hs₁ : Stamped .server (h₁, readings₁) := by
      cases hcalls with
      | socket => exact hs.mono hle
      | bind => exact (hs.openFile _ .socket).mono hle
      | listen => exact (hs.openFile _ .socket).mono hle
    refine wp_stamped hs₁ fun r h' readings' hle' hact _ => ⟨hact, ?_⟩
    cases hcalls <;> exact hle.trans hle'
  · obtain ⟨h₁, readings'⟩ := v
    obtain rfl : h₁ = h.openFile fd .socket := hview
    exact hQ fd readings' hle

theorem wp_stamped_tcpAccept {fd : Fd} {connection : Connection}
    {Q : Except Errno Unit × Connection → Host × Readings → Prop}
    (hs : Stamped .server (h, readings)) (hlog : h.files logFd = some .log)
    (hQ : ∀ (connection : Connection) n h' readings',
      Linked .server connection.sockFd logFd n (h', readings') → GotWhole n (h', readings') →
      Q (.ok (), connection) (h', readings')) :
    wp (stampEnv .server) (tcpAccept fd connection) Q (h, readings) := by
  have linked (peerFd : Fd) (hfree : h.files peerFd = none) (readings' : Readings)
      (hle : readings <:+ readings') :
      Linked .server peerFd logFd h.conns (h.connect peerFd, readings') ∧
        GotWhole h.conns (h.connect peerFd, readings') :=
    (hs.mono hle).connect (Host.fd_ne hlog hfree (Option.some_ne_none _)) hlog
  refine wp_accepts Prod.fst (fun v => readings <:+ v.2) (fun v op hcalls hle => ?_)
    List.suffix_rfl fun connection v hfree hview hle => ?_
  · obtain ⟨h₁, readings₁⟩ := v
    have hs₁ : Stamped .server (h₁, readings₁) := by
      cases hcalls with
      | accept => exact hs.mono hle
      | getsockname hfree => exact (linked _ hfree _ hle).1.toStamped
    refine wp_stamped hs₁ fun r h' readings' hle' hact _ => ⟨hact, ?_⟩
    cases hcalls <;> exact hle.trans hle'
  · obtain ⟨h₁, readings'⟩ := v
    obtain rfl : h₁ = h.connect connection.sockFd := hview
    obtain ⟨hl, hgot⟩ := linked _ hfree _ hle
    exact hQ connection _ _ readings' hl hgot

/-- What a listener thread sends carries its stamps, in each round of its code. -/
theorem ServerStamped.wp_listenCode {port : Int32} {pc : ListenPc} {v : Host × Readings}
    (hs : ServerStamped pc v) (hgo : pc.over = false) :
    wp (stampEnv .server) (listenCode port pc) ServerStamped v := by
  cases hs with
  | start hs =>
    rw [listenCode, wp_bind]
    refine wp_stamped_tcpListen hs fun fd readings₁ hle₁ => ?_
    dsimp only
    rw [wp_bind]
    refine wp_stamped_creat ((hs.openFile fd .socket).mono hle₁) fun logFd readings₂ hle₂ _ => ?_
    exact .accept (((hs.openFile fd .socket).openFile logFd .log).mono (hle₁.trans hle₂))
      (by simp [Host.openFile])
  | accept hs hlog =>
    rw [listenCode, wp_bind, uninitConnection, wp_map]
    refine wp_stamped_indeterminate hs fun bs readings₁ hle₁ => ?_
    rw [wp_bind]
    exact wp_stamped_tcpAccept (hs.mono hle₁) hlog fun connection n h' readings' hl hgot =>
      .serve hl hgot
  | @serve _ logFd connection _ _ _ hl hgot =>
    rw [listenCode, wp_bind]
    refine wp_stamped_serveMessage hl hgot fun action h₁ readings₁ hl₁ hgot₁ => ?_
    cases action with
    | none => exact .serve hl₁ (hgot₁ rfl)
    | some action =>
      dsimp only
      rw [wp_bind]
      refine wp_stamped_close hl₁.toStamped fun readings₂ hle₂ => ?_
      obtain ⟨hs₂, hlog₂⟩ := (hl₁.mono hle₂).close
      cases action with
      | CONTINUE => exact .accept hs₂ hlog₂
      | QUIT => exact .left rfl hs₂
  | @left _ h readings hleft hs =>
    cases pc with
    | closing listenSockFd logFd =>
      rw [listenCode, wp_bind]
      refine wp_stamped_close hs fun readings₁ hle₁ => ?_
      have hs₁ : Stamped .server (h.close listenSockFd, readings₁) :=
        (hs.mono hle₁).of_eq rfl rfl (Nat.le_refl _)
      rw [wp_bind]
      refine wp_stamped_close hs₁ fun readings₂ hle₂ => ?_
      exact .left rfl ((hs₁.mono hle₂).of_eq rfl rfl (Nat.le_refl _))
    | returned => cases hgo
    | exited => cases hgo
    | _ => cases hleft

end Server

section Client

variable {stored : Bool} {args : Args} {h : Host} {readings : Readings} {logFd : Fd} {n : Nat}

/-- The times of a response that has been accepted have been read in order. -/
def Accepts (response : Frame) (readings : Readings) : Prop :=
  [(Side.client, response.header.resRecvTimeUs), (Side.server, response.header.resSendTimeUs),
    (Side.server, response.header.reqRecvTimeUs),
    (Side.client, response.header.reqSendTimeUs)].Sublist readings

/-- What holds at the control points of a client. -/
inductive ClientStamped : ClientPc → Host × Readings → Prop
  | start {h : Host} {readings : Readings} : Stamped .client (h, readings) →
      ClientStamped .start (h, readings)
  | connect {logFd : Fd} {i : Nat} {nextRpcId : UInt32} {h : Host} {readings : Readings} :
      Stamped .client (h, readings) → h.files logFd = some .log →
      ClientStamped (.connect logFd i nextRpcId) (h, readings)
  | request {logFd : Fd} {i : Nat} {nextRpcId : UInt32} {connection : Connection} {j n : Nat}
      {h : Host} {readings : Readings} :
      Linked .client connection.sockFd logFd n (h, readings) → GotWhole n (h, readings) →
      ClientStamped (.request logFd i nextRpcId connection j) (h, readings)
  | accepted {logFd : Fd} {i : Nat} {nextRpcId : UInt32} {connection : Connection} {j n : Nat}
      {response : Frame} {h : Host} {readings : Readings} :
      Linked .client connection.sockFd logFd n (h, readings) → GotWhole n (h, readings) →
      Accepts response readings →
      ClientStamped (.accepted logFd i nextRpcId connection j response) (h, readings)
  | wait {logFd : Fd} {i : Nat} {nextRpcId : UInt32} {connection : Connection} {j n : Nat}
      {response : Frame} {h : Host} {readings : Readings} :
      Linked .client connection.sockFd logFd n (h, readings) → GotWhole n (h, readings) →
      ClientStamped (.wait logFd i nextRpcId connection j response) (h, readings)
  | stopped {pc : ClientPc} {h : Host} {readings : Readings} : pc.over →
      Stamped .client (h, readings) → ClientStamped pc (h, readings)

theorem ClientStamped.stamped {pc : ClientPc} {v : Host × Readings} (hs : ClientStamped pc v) :
    Stamped .client v := by
  cases hs with
  | start hs => exact hs
  | connect hs => exact hs
  | request hl => exact hl.toStamped
  | accepted hl => exact hl.toStamped
  | wait hl => exact hl.toStamped
  | stopped _ hs => exact hs

theorem ClientStamped.mono {pc : ClientPc} {v v' : Host × Readings} (hR : ReadsOn v v')
    (hs : ClientStamped pc v) : ClientStamped pc v' := by
  obtain ⟨h', readings'⟩ := v'
  obtain ⟨rfl, hle⟩ := hR
  cases hs with
  | start hs => exact .start (hs.mono hle)
  | connect hs hlog => exact .connect (hs.mono hle) hlog
  | request hl hgot => exact .request (hl.mono hle) hgot
  | accepted hl hgot haccepts => exact .accepted (hl.mono hle) hgot (haccepts.trans hle.sublist)
  | wait hl hgot => exact .wait (hl.mono hle) hgot
  | stopped hover hs => exact .stopped hover (hs.mono hle)

theorem wp_stamped_tcpConnect {server : CString} {port : UInt16}
    {Q : Except Errno Connection → Host × Readings → Prop} (hs : Stamped .client (h, readings))
    (hlog : h.files logFd = some .log)
    (hQ : ∀ (connection : Connection) n h' readings',
      Linked .client connection.sockFd logFd n (h', readings') → GotWhole n (h', readings') →
      Q (.ok connection) (h', readings')) :
    wp (stampEnv .client) (tcpConnect server port) Q (h, readings) := by
  have linked (sockFd : Fd) (hfree : h.files sockFd = none) (readings' : Readings)
      (hle : readings <:+ readings') :
      Linked .client sockFd logFd h.conns
          ((h.openFile sockFd .socket).connect sockFd, readings') ∧
        GotWhole h.conns ((h.openFile sockFd .socket).connect sockFd, readings') := by
    have hne := Host.fd_ne hlog hfree (Option.some_ne_none _)
    exact ((hs.openFile sockFd .socket).mono hle).connect hne (by simp [Host.openFile, hne, hlog])
  refine wp_connects Prod.fst (fun v => readings <:+ v.2) (fun v op hcalls hle => ?_)
    List.suffix_rfl fun connection v hfree hview hle => ?_
  · obtain ⟨h₁, readings₁⟩ := v
    have hs₁ : Stamped .client (h₁, readings₁) := by
      cases hcalls with
      | socket => exact hs.mono hle
      | getsockname hfree => exact (linked _ hfree _ hle).1.toStamped
      | _ => exact (hs.openFile _ .socket).mono hle
    refine wp_stamped hs₁ fun r h' readings' hle' hact _ => ⟨hact, ?_⟩
    cases hcalls <;> exact hle.trans hle'
  · obtain ⟨h₁, readings'⟩ := v
    obtain rfl : h₁ = (h.openFile connection.sockFd .socket).connect connection.sockFd := hview
    obtain ⟨hl, hgot⟩ := linked _ hfree _ hle
    exact hQ connection _ _ readings' hl hgot

/-- Memory that nothing has initialized. -/
def memoryEnv : Env SysOp SysOp.Result Unit where
  allows _ op := op.LooksAtMemory
  act _ _ _ _ := True

/-- Making the body of a request looks at nothing but memory. -/
theorem wp_stamped_requestBody {j : Nat} {connection : Connection}
    {Q : Option Body → Host × Readings → Prop} (hreadable : args.Readable stored j)
    (hfits : args.Fits j)
    (hl : Linked .client connection.sockFd logFd n (h, readings)) (hgot : GotWhole n (h, readings))
    (hQ : ∀ (body : Bytes) h' readings', body.length < 2 ^ 32 →
      Linked .client connection.sockFd logFd n (h', readings') → GotWhole n (h', readings') →
      Q (some body) (h', readings')) :
    wp (stampEnv .client) (requestBody stored args j) Q (h, readings) := by
  have hbody : wp memoryEnv (requestBody stored args j)
      (fun r _ => ∃ body : Bytes, r = some (body : Body) ∧ body.length < 2 ^ 32) () :=
    wp_requestBody_readable hreadable hfits ⟨trivial, fun _ _ _ => rfl⟩
      fun body _ hshort => ⟨body, rfl, hshort⟩
  have hsim : memoryEnv.Simulates (stampEnv .client) fun _ v =>
      Linked .client connection.sockFd logFd n v ∧ GotWhole n v := by
    intro _ v op hv hlooks
    cases op with
    | indeterminate size =>
      refine wp_stamped hv.1.toStamped (Q := fun _ _ => _) fun r h' readings' hle hact _ => ?_
      obtain rfl : h' = v.1 := hact
      exact ⟨(), trivial, hv.1.mono hle, hv.2⟩
    | _ => exact hlooks.elim
  refine wp_mono (hsim.wp hbody ⟨hl, hgot⟩) fun r v hr => ?_
  obtain ⟨-, ⟨hl', hgot'⟩, body, rfl, hshort⟩ := hr
  exact hQ body v.1 v.2 hshort hl' hgot'

/-- What a client sends carries its stamps, in each round of its code. -/
theorem ClientStamped.wp_clientCode (hreadable : ∀ j, args.Readable stored j)
    (hfits : ∀ j, args.Fits j) {pc : ClientPc} {v : Host × Readings} (hs : ClientStamped pc v)
    (hgo : pc.over = false) :
    wp (stampEnv .client) (clientCode stored args pc) ClientStamped v := by
  cases hs with
  | start hs =>
    rw [clientCode, wp_bind]
    refine wp_stamped_creat hs fun logFd readings' hle _ => ?_
    exact .connect ((hs.openFile logFd .log).mono hle) (by simp [Host.openFile])
  | connect hs hlog =>
    rw [clientCode]
    split_ifs
    · rw [wp_bind]
      exact wp_stamped_tcpConnect hs hlog fun connection n h' readings' hl hgot => .request hl hgot
    · exact .stopped rfl hs
  | @request logFd i nextRpcId connection j _ _ _ hl hgot =>
    rw [clientCode]
    split_ifs
    · rw [wp_bind]
      refine wp_stamped_requestBody (hreadable j) (hfits j) hl hgot
        fun body h₁ readings₁ hshort hl₁ hgot₁ => ?_
      dsimp only
      rw [wp_bind]
      refine wp_stamped_rpcSendReq hshort hl₁ hgot₁ fun r h₂ readings₂ hl₂ hgot₂ => ?_
      dsimp only
      rw [wp_bind]
      exact wp_stamped_recvStamped hl₂ hgot₂ (fun h' readings' hl' => .stopped rfl hl'.toStamped)
        fun f now h' readings' hl' hgot' haccepts => .accepted hl' hgot' haccepts
    · rw [wp_bind]
      refine wp_stamped_close hl.toStamped fun readings' hle => ?_
      obtain ⟨hs', hlog'⟩ := (hl.mono hle).close
      exact .connect hs' hlog'
  | accepted hl hgot =>
    rw [clientCode, wp_bind]
    exact wp_stamped_log hl.toStamped hl.log fun readings' hle => .wait (hl.mono hle) hgot
  | wait hl hgot =>
    rw [clientCode, wp_bind]
    refine wp_stamped_nowUsec hl.toStamped fun now readings' hle _ => ?_
    have hl' := (hl.look now).mono (hle.trans (List.suffix_cons (.client, now) _))
    dsimp only
    split_ifs
    · exact .wait hl' hgot
    · exact .request hl' hgot
  | stopped hover => simp [hover] at hgo

end Client

section Runs

variable {T : Type} [DecidableEq T] {stored : Bool} {args : Args} {ports : T → Int32}
  {keystore : Keystore}

/-- The side that a party runs on. -/
def Party.side : Party T → Side
  | .client => .client
  | _ => .server

/-- The net, where all readings of the clocks are noted. -/
def stampedNet (stored : Bool) (args : Args) (ports : T → Int32) :
    Threads (Party T) (fun p => Sys p.Pc) (Net × Readings) :=
  .ofProcess (party stored args ports) fun p => (partyEnv p).ghost (readClock p.side)

/-- Every party is at its start, and no clock has been read. -/
def stampedInit (T : Type) (keystore : Keystore) :
    Config (Party T) (fun p => Sys p.Pc) (Net × Readings) :=
  ⟨(netInit T keystore).own, (netInit T keystore).shared, []⟩

variable {ok : Party T → Config (Party T) (fun p => Sys p.Pc) (Net × Readings) → Prop}
  {c₀ c : Config (Party T) (fun p => Sys p.Pc) (Net × Readings)}

/-- Noting the readings does not change the runs. -/
theorem stampedNet_forget (hrun : (stampedNet stored args ports).Runs ok c₀ c) :
    (net stored args ports).Runs (fun _ _ => True) ⟨c₀.own, c₀.shared.1⟩ ⟨c.own, c.shared.1⟩ :=
  hrun.forget

theorem stampedNet_note {c : NetConfig T}
    (hrun : (net stored args ports).Runs (fun _ _ => True) (netInit T keystore) c) :
    ∃ readings, (stampedNet stored args ports).Runs (fun _ _ => True) (stampedInit T keystore)
      ⟨c.own, c.shared, readings⟩ := hrun.note []

theorem suffix_readClock (side : Side) (op : SysOp) (r : op.Result) (readings : Readings) :
    readings <:+ readClock side op r readings := by
  unfold readClock
  split
  · exact List.suffix_cons _ _
  · exact List.suffix_rfl

variable {side : Side} {s s' : Net × Readings} {op : SysOp} {r : op.Result}

/-- A side gets what the other one has sent, stamps and all. -/
theorem netEnv_stamps (hact : ((netEnv side).ghost (readClock side)).act s op r s')
    (hflows : s.1.Flows)
    (hcarries : ∀ n, CarriesStamps side.other s.2 ((s.1.hosts side.other).sent n)) :
    (stampEnv side).act (s.1.hosts side, s.2) op r (s'.1.hosts side, s'.2) := by
  obtain ⟨hact, hreadings⟩ := hact
  have hflows' := hflows.act hact side
  obtain ⟨h, keystore, hhost, -, -, heq⟩ := hact
  rw [heq] at hflows' ⊢
  simp only [Function.update_self, Function.update_of_ne side.other_ne] at hflows' ⊢
  exact ⟨s.2, List.suffix_rfl, hhost, fun n => (hcarries n).of_isPrefix (hflows' n), hreadings⟩

/-- What a side does leaves the other one as it is, but for the readings. -/
theorem netEnv_readsOn (hact : ((netEnv side).ghost (readClock side)).act s op r s') :
    ReadsOn (s.1.hosts side.other, s.2) (s'.1.hosts side.other, s'.2) := by
  obtain ⟨⟨h, keystore, -, -, -, heq⟩, hreadings⟩ := hact
  refine ⟨?_, ?_⟩
  · rw [heq]
    exact Function.update_of_ne side.other_ne _ _
  · rw [hreadings]
    exact suffix_readClock _ _ _ _

theorem otherEnv_readsOn (hact : (otherEnv.ghost (readClock .server)).act s op r s') :
    ReadsOn (s.1.hosts side, s.2) (s'.1.hosts side, s'.2) := by
  obtain ⟨⟨keystore, -, heq⟩, hreadings⟩ := hact
  refine ⟨?_, ?_⟩
  · rw [heq]
  · rw [hreadings]
    exact suffix_readClock _ _ _ _

/-- What a side has sent carries its stamps at any time, if it does at the control points. -/
theorem carries_of_wp {α : Type} {p : Sys α} {Q : α → Host × Readings → Prop}
    {v : Host × Readings} (h : wp (stampEnv side) p Q v) (hQ : ∀ a v, Q a v → Stamped side v)
    (n : Nat) : CarriesStamps side v.2 (v.1.sent n) := by
  cases p with
  | ret a => exact (hQ a v h).carries n
  | call op k => exact h.1 n

/-- What the rules of each party's side are. -/
def partyStampEnv : Party T → Env SysOp SysOp.Result (Host × Readings)
  | .client => stampEnv .client
  | .server => stampEnv .server
  | .other _ => ⟨fun _ _ => True, fun _ _ _ _ => True⟩

/-- What holds at the control points of each party. -/
def PartyStamped : (p : Party T) → p.Pc → Host × Readings → Prop
  | .client => ClientStamped
  | .server => ServerStamped
  | .other _ => fun _ _ => True

/-- What the parties may do to each other's view. -/
def PartyReadsOn : Party T → Host × Readings → Host × Readings → Prop
  | .other _ => fun _ _ => True
  | _ => ReadsOn

theorem wp_true {Op : Type} {Res : Op → Type} {σ α : Type} {env : Env Op Res σ}
    (henv : ∀ s op, env.allows s op) (p : Prog Op Res α) (s : σ) :
    wp env p (fun _ _ => True) s :=
  (only_true p).wp (fun s op _ _ => ⟨henv s op, fun _ _ _ => trivial⟩) trivial

/-- In every run, what each side has sent carries its stamps, and what holds at the control points
of each party holds at the end of its code in progress. -/
theorem stampedNet_wp (hreadable : ∀ j, args.Readable stored j) (hfits : ∀ j, args.Fits j)
    (hrun : (stampedNet stored args ports).Runs ok (stampedInit T keystore) c) (p : Party T) :
    wp (partyStampEnv p) (c.own p) (PartyStamped p) (c.shared.1.hosts p.side, c.shared.2) := by
  have hstart (side : Side) : Stamped side ((stampedInit T keystore).shared.1.hosts side, []) :=
    ⟨fun n _ => ⟨rfl, rfl⟩, fun n => .nil⟩
  refine hrun.wp_views (fun p s => (s.1.hosts p.side, s.2)) (R := PartyReadsOn)
    (fun p => ?_) (fun p pc v v' hR hs => ?_) (fun c' p op k r s hrun hwp _ hact => ?_)
    (fun p q s op r s' hne hact => ?_) (fun p pc v hgo hs => ?_) (fun p => ?_) p
  · cases p with
    | client => exact stampEnv_stable .client
    | server => exact stampEnv_stable .server
    | other t => exact ⟨fun _ _ _ _ _ => trivial, fun _ _ _ _ _ _ _ => trivial⟩
  · cases p with
    | client => exact hs.mono hR
    | server => exact hs.mono hR
    | other t => trivial
  · have hflows := net_flows (stampedNet_forget hrun) (netInit_flows T keystore)
    cases p with
    | client =>
      exact netEnv_stamps hact hflows fun n =>
        carries_of_wp (hwp .server) (fun _ _ hs => hs.stamped) n
    | server =>
      exact netEnv_stamps hact hflows fun n =>
        carries_of_wp (hwp .client) (fun _ _ hs => hs.stamped) n
    | other t => trivial
  · cases q with
    | client =>
      cases p with
      | client => exact absurd rfl hne
      | server => exact netEnv_readsOn hact
      | other t => exact otherEnv_readsOn hact
    | server =>
      cases p with
      | client => exact netEnv_readsOn hact
      | server => exact absurd rfl hne
      | other t => exact otherEnv_readsOn hact
    | other t => trivial
  · cases p with
    | client => exact hs.wp_clientCode hreadable hfits hgo
    | server => exact hs.wp_listenCode hgo
    | other t => exact wp_true (fun _ _ => trivial) _ _
  · cases p with
    | client => exact .start (hstart .client)
    | server => exact .start (hstart .server)
    | other t => trivial

end Runs

section Order

/-- The clocks of both sides show one time that does not go back, each of them with a fixed offset
of its own. -/
def Steady (offset : Side → Int) (readings : Readings) : Prop :=
  readings.Pairwise fun later earlier =>
    (earlier.2.toNat : Int) - offset earlier.1 ≤ later.2.toNat - offset later.1

/-- For every run of a client against the server, while other clients may be served on other ports,
the times T1 to T4 of each response that the client accepts are readings of the clocks of client,
server, server and client, which have been made in this order.  So where these clocks are steady,
T2 - T1 and T3 - T4 bound the offset between them, and the server has not handled the request for
longer than the client has waited. -/
theorem stamps_ordered {T : Type} [DecidableEq T] (stored : Bool) (args : Args) (ports : T → Int32)
    (keystore : Keystore) (hfits : ∀ j, args.Fits j)
    {c : Config (Party T) (fun p => Sys p.Pc) (Net × Readings)}
    (hrun : (stampedNet stored args ports).Runs (fun _ _ => True) (stampedInit T keystore) c)
    {logFd : Fd} {i : Nat} {nextRpcId : UInt32} {connection : Connection} {j : Nat}
    {response : Frame}
    (haccepted : c.own .client = .ret (.accepted logFd i nextRpcId connection j response)) :
    let t1 := response.header.reqSendTimeUs
    let t2 := response.header.reqRecvTimeUs
    let t3 := response.header.resSendTimeUs
    let t4 := response.header.resRecvTimeUs
    [(Side.client, t4), (.server, t3), (.server, t2), (.client, t1)].Sublist c.shared.2 ∧
      ∀ offset, Steady offset c.shared.2 →
        (t3.toNat : Int) - t4.toNat ≤ offset .server - offset .client ∧
        offset .server - offset .client ≤ t2.toNat - t1.toNat ∧ t2 ≤ t3 ∧
        (t3.toNat : Int) - t2.toNat ≤ t4.toNat - t1.toNat := by
  intro t1 t2 t3 t4
  have hreadable := readable_of_accepted hfits (stampedNet_forget hrun) haccepted
  have hclient := stampedNet_wp hreadable hfits hrun .client
  rw [haccepted] at hclient
  cases hclient with
  | stopped hover => cases hover
  | accepted _ _ haccepts =>
    refine ⟨haccepts, fun offset hsteady => ?_⟩
    have hstamps : Steady offset [(.client, t4), (.server, t3), (.server, t2), (.client, t1)] :=
      List.Pairwise.sublist haccepts hsteady
    simp only [Steady, List.pairwise_cons, List.mem_cons, List.not_mem_nil, or_false,
      forall_eq_or_imp, forall_eq] at hstamps
    rw [UInt64.le_iff_toNat_le]
    omega

/-- The second of two `ping`s without a value. -/
theorem stamps_ordered_ping : ∃ (c : Config (Party Unit) (fun p => Sys p.Pc) (Net × Readings))
    (connection : Connection) (response : Frame),
    (stampedNet true (twoRequests .Ping none none) fun _ => 12346).Runs (fun _ _ => True)
      (stampedInit Unit ∅) c ∧
    c.own .client = .ret (.accepted 3 0 3 connection 1 response) ∧
    [(Side.client, response.header.resRecvTimeUs), (.server, response.header.resSendTimeUs),
      (.server, response.header.reqRecvTimeUs),
      (.client, response.header.reqSendTimeUs)].Sublist c.shared.2 := by
  obtain ⟨c, connection, _, _, _, hrun, hclient, -⟩ :=
    @runs_twoRequests Unit _ true (fun _ => 12346) (fun _ _ => True) .Ping none none
      (fun _ => trivial) (fun _ => trivial) (fun _ => .inl rfl) twoPings_fit nofun ∅
  obtain ⟨readings, hrun⟩ := stampedNet_note hrun
  exact ⟨⟨c.own, c.shared, readings⟩, connection, _, hrun, hclient,
    (stamps_ordered true (twoRequests .Ping none none) (fun _ => 12346) ∅ twoPings_fit hrun
      hclient).1⟩

end Order

end SoftwareDynamics.Network

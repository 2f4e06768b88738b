import SoftwareDynamics.Network.ClientTurns
import SoftwareDynamics.Network.ServerTurns
import SoftwareDynamics.Network.Causality
import SoftwareDynamics.ProofKit.Blocking

/-! Client and server do not wait for each other.  Where the server is blocked, what the client is
about to do has a result. -/

namespace SoftwareDynamics.Network

open ProofKit Prog

section Runs

variable {args : Args} {side : Side} {s s' : Net} {op : SysOp} {r : op.Result}

/-- A side gets only what the other one may send, and learns what the other one has done. -/
theorem netEnv_turn (hact : (netEnv side).act s op r s') (hflows : s.Flows)
    (hpeer : InTurn args side.other (s.hosts side.other, s.hosts side)) :
    (turnEnv args side).act (s.hosts side, s.hosts side.other) op r
      (s'.hosts side, s'.hosts side.other) := by
  have hflows' := hflows.act hact side
  obtain ⟨h, keystore, hhost, hgets, -, rfl⟩ := hact
  simp only [Function.update_self, Function.update_of_ne side.other_ne] at hflows' ⊢
  refine ⟨hhost, .refl _, fun n => (hpeer.carries n).of_isPrefix (hflows' n), ?_⟩
  cases op with
  | read fd count =>
    rcases r with _ | chunk
    · exact hhost.elim
    intro hempty n hn
    have hclosed := hgets n hn
    rw [if_pos hempty] at hclosed
    -- The end of what the server sends comes only behind the client's own `close`.
    cases side with
    | client => exact (Host.act_grows hhost).closed n (hpeer.closed_behind n hclosed.1)
    | server => exact hclosed.1
  | accept fd =>
    cases r <;> exact hgets
  | _ => trivial

/-- What a side does leaves the other one as it is. -/
theorem netEnv_peerGrows (hact : (netEnv side).act s op r s') :
    PeerGrows (s.hosts side.other, s.hosts side) (s'.hosts side.other, s'.hosts side) := by
  obtain ⟨h, keystore, hhost, -, -, rfl⟩ := hact
  refine ⟨Function.update_of_ne side.other_ne _ _, ?_⟩
  dsimp only
  rw [Function.update_self]
  exact Host.act_grows hhost

theorem otherEnv_peerGrows (hact : otherEnv.act s op r s') :
    PeerGrows (s.hosts side, s.hosts side.other) (s'.hosts side, s'.hosts side.other) := by
  obtain ⟨keystore, -, rfl⟩ := hact
  exact ⟨rfl, .refl _⟩

theorem inTurn_of_wp {α : Type} {p : Sys α} {Q : α → Host × Host → Prop} {v : Host × Host}
    (h : wp (turnEnv args side) p Q v) (hQ : ∀ a v, Q a v → InTurn args side v) :
    InTurn args side v := by
  cases p with
  | ret a => exact hQ a v h
  | call op k => exact h.1.1

variable {T : Type} [DecidableEq T] {stored : Bool} {ports : T → Int32} {keystore : Keystore}
  {ok : Party T → NetConfig T → Prop} {c : NetConfig T}

/-- What the rules of each party's turns are. -/
def partyTurnEnv (args : Args) : Party T → Env SysOp SysOp.Result (Host × Host)
  | .client => turnEnv args .client
  | .server => turnEnv args .server
  | .other _ => ⟨fun _ _ => True, fun _ _ _ _ => True⟩

/-- What holds at the control points of each party. -/
def PartyTurns (args : Args) : (p : Party T) → p.Pc → Host × Host → Prop
  | .client => ClientTurns args
  | .server => ServerTurns args
  | .other _ => fun _ _ => True

/-- What the parties may do to each other's view. -/
def PartyPeerGrows : Party T → Host × Host → Host × Host → Prop
  | .other _ => fun _ _ => True
  | _ => PeerGrows

/-- In every run, client and server take turns. -/
theorem net_turns (hreadable : ∀ j, args.Readable stored j) (hfits : ∀ j, args.Fits j)
    (hquit : args.command ≠ .Quit)
    (hrun : (net stored args ports).Runs ok (netInit T keystore) c) (p : Party T) :
    wp (partyTurnEnv args p) (c.own p) (PartyTurns args p)
      (c.shared.hosts p.side, c.shared.hosts p.side.other) := by
  have hstart (side : Side) : InTurn args side (.init, .init) :=
    ⟨fun n _ => ⟨rfl, rfl⟩, nofun, fun _ => .nil, fun _ => .nil,
      by cases side <;> exact Nat.le_refl _, nofun⟩
  refine hrun.wp_views (fun p s => (s.hosts p.side, s.hosts p.side.other)) (R := PartyPeerGrows)
    (fun p => ?_) (fun p pc v v' hR hs => ?_) (fun c' p op k r s hrun hwp _ hact => ?_)
    (fun p q s op r s' hne hact => ?_) (fun p pc v hgo hs => ?_) (fun p => ?_) p
  · cases p with
    | client => exact turnEnv_stable args .client
    | server => exact turnEnv_stable args .server
    | other t => exact ⟨fun _ _ _ _ _ => trivial, fun _ _ _ _ _ _ _ => trivial⟩
  · cases p with
    | client => exact hs.mono hR
    | server => exact hs.mono hR
    | other t => trivial
  · have hflows := net_flows hrun (netInit_flows T keystore)
    cases p with
    | client =>
      exact netEnv_turn hact hflows (inTurn_of_wp (hwp .server) fun _ _ => ServerTurns.inTurn)
    | server =>
      exact netEnv_turn hact hflows (inTurn_of_wp (hwp .client) fun _ _ => ClientTurns.inTurn)
    | other t => trivial
  · cases q with
    | client =>
      cases p with
      | client => exact absurd rfl hne
      | server => exact netEnv_peerGrows hact
      | other t => exact otherEnv_peerGrows hact
    | server =>
      cases p with
      | client => exact netEnv_peerGrows hact
      | server => exact absurd rfl hne
      | other t => exact otherEnv_peerGrows hact
    | other t => trivial
  · cases p with
    | client => exact hs.wp_clientCode hreadable hfits hgo
    | server => exact hs.wp_listenCode hquit
    | other t => exact wp_true (fun _ _ => trivial) _ _
  · cases p with
    | client => exact .start (hstart .client) rfl fun _ _ => rfl
    | server => exact .start (hstart .server) rfl fun _ _ => rfl
    | other t => trivial

end Runs

section Idle

variable {args : Args} {s : Net} {port : Int32} {op : SysOp}

/-- Where no complete frame is left of what has been got of a stream, all its frames have been. -/
theorem Frame.stream_eq {got frames : List Frame} {part : Bytes}
    (h : stream got ++ part = stream frames) (hpart : first part = none) : frames = got := by
  obtain ⟨rest, rfl⟩ := stream_prefix ⟨part, h⟩
  rw [stream_append, List.append_cancel_left_eq] at h
  cases rest with
  | nil => exact List.append_nil got
  | cons f rest =>
    rw [h, stream_cons, first_append] at hpart
    cases hpart

/-- What a server waits for that cannot go on: a request, where it has got all that the client has
sent, or a connection, where it has accepted all that the client has opened. -/
inductive Idle (server client : Host) : Prop
  | request {n : Nat} : server.Expects n Side.server.lead → client.closed n = false →
      server.got n = client.sent n → Idle server client
  | connection : client.conns ≤ server.conns → (∀ n < server.conns, server.closed n) →
      Idle server client

/-- A server that is blocked is idle, and has a socket. -/
theorem idle_of_blocked {p : Sys ListenPc}
    (h : wp (turnEnv args .server) p (ServerTurns args) (s.hosts .server, s.hosts .client))
    (hflows : s.Flows) (hblocked : (rpcListen port).Blocked (netEnv .server) (p, s)) :
    Idle (s.hosts .server) (s.hosts .client) ∧
      ∃ fd, (s.hosts .server).files fd = some .socket := by
  cases p with
  | ret pc =>
    have hover : pc.over = true := hblocked.halted
    rw [ServerTurns.over_eq_false h] at hover
    cases hover
  | call op k =>
    obtain ⟨-, henables, hturn⟩ := h.1
    have hstuck : ¬(s.hosts .client).Unblocks (s.hosts .server) op := fun hunblocks => by
      obtain ⟨r, s', hact⟩ := netEnv_exists_act .server hflows henables hunblocks
      exact hblocked.not_act r s' hact
    cases op with
    | read fd count =>
      obtain ⟨⟨n, hn, hexpects⟩, hlistens⟩ := hturn
      refine ⟨?_, hlistens rfl⟩
      obtain ⟨hopen, hall⟩ := not_or.mp fun hmore => hstuck fun m hm => by
        obtain rfl : n = m := File.connection.inj (Option.some.inj (hn.symm.trans hm))
        exact hmore
      exact .request hexpects (Bool.eq_false_of_not_eq_true hopen) (not_not.mp hall)
    | accept fd => exact ⟨.connection (Nat.le_of_not_lt hstuck) hturn.2, fd, henables.1⟩
    | connect fd addr => cases hturn
    | _ => exact absurd trivial hstuck

/-- While the server waits for a request, the client does not wait for a response. -/
theorem Idle.unblocks {client server : Host} (hw : Idle server client)
    (hlistens : ∃ fd, server.files fd = some .socket) (hbehind : server.conns ≤ client.conns)
    (hturn : Side.client.Turn client op) : server.Unblocks client op := by
  cases op with
  | read fd count =>
    obtain ⟨⟨n, hn, hexpects⟩, -⟩ := hturn
    intro m hm
    obtain rfl : n = m := File.connection.inj (Option.some.inj (hn.symm.trans hm))
    have hlast := hexpects.last
    cases hw with
    | connection hconns hclosed => exact .inl (hclosed n (by omega))
    | @request m hrequest hopen hgot =>
      refine .inr fun hall => ?_
      -- Both wait on the connection that the client has opened last.
      obtain rfl : m = n := by
        by_contra hne
        have hlast' := hrequest.last
        have hclosed := hexpects.earlier m (by omega)
        rw [hopen] at hclosed
        cases hclosed
      -- If nothing is on its way, the server has got one frame less than the client has sent.
      obtain ⟨requests, responses, part, hsent, hgot', hpart, hlength⟩ := hexpects.frames
      obtain ⟨responses', requests', part', hsent', hgot'', hpart', hlength'⟩ := hrequest.frames
      obtain rfl := Frame.stream_eq ((hgot''.symm.trans hgot).trans hsent) hpart'
      obtain rfl := Frame.stream_eq ((hgot'.symm.trans hall).trans hsent') hpart
      simp only [Side.lead] at hlength hlength'
      omega
  | connect fd addr => exact hlistens
  | accept fd => cases hturn.1
  | _ => trivial

/-- Where the server is blocked, what the client is about to do has a result. -/
theorem exists_act_of_blocked {k : op.Result → Sys ClientPc} {p : Sys ListenPc}
    (hclient : wp (turnEnv args .client) (.call op k) (ClientTurns args)
      (s.hosts .client, s.hosts .server))
    (hserver : wp (turnEnv args .server) p (ServerTurns args) (s.hosts .server, s.hosts .client))
    (hflows : s.Flows) (hblocked : (rpcListen port).Blocked (netEnv .server) (p, s)) :
    ∃ r s', (netEnv .client).act s op r s' := by
  obtain ⟨hw, hlistens⟩ := idle_of_blocked hserver hflows hblocked
  have hbehind := (inTurn_of_wp hserver fun _ _ => ServerTurns.inTurn).behind
  obtain ⟨-, henables, hturn⟩ := hclient.1
  exact netEnv_exists_act .client hflows henables (hw.unblocks hlistens hbehind hturn)

end Idle

end SoftwareDynamics.Network

import SoftwareDynamics.Network.ServerLog
import SoftwareDynamics.Network.ClientLog
import SoftwareDynamics.Network.Correlation

/-! The log files of client and server.  Both tell of the same exchanges in the same order, in every
run, up to what is still to be written. -/

namespace SoftwareDynamics.Network

open ProofKit Prog

section Files

variable {T : Type} [DecidableEq T]

/-- What an operation of a party changes of the files that each of them has created.  No two of them
create one file, as the name of the log of a listener thread has its port. -/
def noteDisk (p : Party T) (op : SysOp) (r : op.Result) (disks : Party T → Disk) :
    Party T → Disk :=
  Function.update disks p (Disk.note op r (disks p))

/-- The client and the server, and the files that each party has created. -/
def diskNet (stored : Bool) (args : Args) (ports : T → Int32) :
    Threads (Party T) (fun p => Sys p.Pc) (Net × (Party T → Disk)) :=
  .ofProcess (party stored args ports) fun p => (partyEnv p).ghost (noteDisk p)

/-- Every party is at its start, and there are no files. -/
def diskInit (T : Type) (keystore : Keystore) :
    Config (Party T) (fun p => Sys p.Pc) (Net × (Party T → Disk)) :=
  ⟨(netInit T keystore).own, (netInit T keystore).shared, fun _ => .empty⟩

variable {stored : Bool} {args : Args} {ports : T → Int32} {keystore : Keystore}
  {c : Config (Party T) (fun p => Sys p.Pc) (Net × (Party T → Disk))}

theorem noteDisk_self (p : Party T) (op : SysOp) (r : op.Result) (disks : Party T → Disk) :
    noteDisk p op r disks p = Disk.note op r (disks p) := Function.update_self _ _ _

/-- A party leaves the files of the others alone. -/
theorem noteDisk_of_ne {p q : Party T} (hne : q ≠ p) (op : SysOp) (r : op.Result)
    (disks : Party T → Disk) : noteDisk p op r disks q = disks q := Function.update_of_ne hne _ _

/-- What one side does leaves the other one as it is. -/
theorem netEnv_hosts_of_ne {side side' : Side} (hne : side' ≠ side) {op : SysOp} {r : op.Result}
    {s s' : Net} (hact : (netEnv side).act s op r s') : s'.hosts side' = s.hosts side' := by
  obtain ⟨h, keystore, -, -, -, rfl⟩ := hact
  exact Function.update_of_ne hne _ _

/-- In every run, what holds at the control points of the client holds where it has come to one. -/
theorem diskNet_client (hfits : ∀ j, args.Fits j)
    (hrun : (diskNet stored args ports).Runs (fun _ _ => True) (diskInit T keystore) c)
    {pc : ClientPc} (hown : c.own .client = .ret pc) :
    ClientLogs args pc ((c.shared.1.hosts .client, ()), c.shared.2 .client) := by
  have hclient := hrun.wp_view .client (fun s => ((s.1.hosts .client, ()), s.2 .client))
    (J := fun pc v => v.1.1.Answered → ClientLogs args pc v) ?_ ?_
    (fun c pc hrun hgo hs => (hs (net_answered hrun.forget)).wp_clientCode hfits hgo)
    fun _ => ClientLogs.start (called_init args)
  · rw [hown] at hclient
    exact hclient (net_answered hrun.forget)
  · rintro c op k r ⟨s, disks⟩ - - ⟨⟨h, keystore, hact, -, -, rfl⟩, rfl⟩
    refine ⟨⟨?_, shared_act op r⟩, noteDisk_self .client op r c.shared.2⟩
    dsimp only
    rwa [Function.update_self]
  · rintro u hu c op k r ⟨s, disks⟩ - - - ⟨hact, rfl⟩
    dsimp only
    rw [noteDisk_of_ne hu.symm]
    cases u with
    | client => exact absurd rfl hu
    | server => rw [netEnv_hosts_of_ne (by decide) hact]
    | other t =>
      obtain ⟨keystore, -, rfl⟩ := hact
      rfl

/-- In every run, what holds at the control points of the server's listener thread holds at the end
of its code in progress, and its log file keeps up with it. -/
theorem diskNet_server
    (hrun : (diskNet stored args ports).Runs (fun _ _ => True) (diskInit T keystore) c) :
    wp (diskEnv .shared (LogsUp .shared () (serverLogFn (.ofNat args.port.toNat))))
      (c.own .server) (ServerLogs .shared () (serverLogFn (.ofNat args.port.toNat)))
      ((c.shared.1.hosts .server, ()), c.shared.2 .server) := by
  refine hrun.wp_view .server (fun s => ((s.1.hosts .server, ()), s.2 .server)) ?_ ?_
    (fun _ _ _ hgo hs => hs.wp_listenCode hgo)
    (ServerLogs.start (fun _ _ => ⟨rfl, rfl⟩) (correlated_init _ ()))
  · rintro c op k r ⟨s, disks⟩ - - ⟨⟨h, keystore, hact, -, -, rfl⟩, rfl⟩
    refine ⟨⟨?_, shared_act op r⟩, noteDisk_self .server op r c.shared.2⟩
    dsimp only
    rwa [Function.update_self]
  · rintro u hu c op k r ⟨s, disks⟩ - - - ⟨hact, rfl⟩
    dsimp only
    rw [noteDisk_of_ne hu.symm]
    cases u with
    | server => exact absurd rfl hu
    | client => rw [netEnv_hosts_of_ne (by decide) hact]
    | other t =>
      obtain ⟨keystore, -, rfl⟩ := hact
      rfl

end Files

section Order

/-- Exchanges that have been made on one connection after the other are in the order that each of
the connections tells. -/
theorem eq_of_onConn {xs ys : List Exchange} (hxs : xs.Pairwise fun x y => x.conn ≤ y.conn)
    (hys : ys.Pairwise fun x y => x.conn ≤ y.conn) (h : ∀ n, onConn xs n = onConn ys n) :
    xs = ys := by
  have mem {zs : List Exchange} {z : Exchange} : z ∈ onConn zs z.conn ↔ z ∈ zs := by simp [onConn]
  induction xs generalizing ys with
  | nil =>
    refine (List.eq_nil_iff_forall_not_mem.mpr fun y hy => ?_).symm
    have hnil := mem.mpr hy
    rw [← h] at hnil
    cases hnil
  | cons x xs ih =>
    cases ys with
    | nil =>
      have hnil : x ∈ onConn [] x.conn := h x.conn ▸ mem.mpr List.mem_cons_self
      cases hnil
    | cons y ys =>
      have hx : x ∈ y :: ys := mem.mp (h x.conn ▸ mem.mpr List.mem_cons_self)
      have hy : y ∈ x :: xs := mem.mp (h y.conn ▸ mem.mpr List.mem_cons_self)
      obtain ⟨hxfirst, hxrest⟩ := List.pairwise_cons.mp hxs
      obtain ⟨hyfirst, hyrest⟩ := List.pairwise_cons.mp hys
      have hconn : x.conn = y.conn := by
        rcases List.mem_cons.mp hx with rfl | hx
        · rfl
        rcases List.mem_cons.mp hy with rfl | hy
        · rfl
        exact Nat.le_antisymm (hxfirst y hy) (hyfirst x hx)
      have hfirst := h x.conn
      rw [onConn, onConn, List.filter_cons_of_pos (by simp),
        List.filter_cons_of_pos (by simp [hconn])] at hfirst
      obtain ⟨rfl, -⟩ := List.cons.inj hfirst
      refine congrArg _ (ih hxrest hyrest fun n => ?_)
      have hn := h n
      rw [onConn, onConn, List.filter_cons, List.filter_cons] at hn
      split_ifs at hn
      · exact (List.cons.inj hn).2
      · exact hn

end Order

section Agreement

variable {args : Args} {client server : Host} {xs zs : List Exchange} {k : Unit}

/-- What the server has handled is what the client has called. -/
theorem Correlated.conversation (hs : Correlated .shared () xs (server, k))
    (hc : Called args 0 [] zs client) (hzs : zs.Pairwise fun x y => x.conn ≤ y.conn)
    (requests : ∀ n, server.got n <+: client.sent n)
    (responses : ∀ n, client.got n <+: server.sent n) :
    xs = zs ∧ AllHandled zs server ∧ ∀ n, Conversation client server n (onConn zs n) := by
  have hmatch := hs.eq_of_called hc requests responses
  simp only [List.nil_append] at hmatch
  obtain rfl := eq_of_onConn hs.ordered hzs fun n => (hmatch n).1
  refine ⟨rfl, fun n => ?_, hs.conversation_onConn hc requests responses⟩
  rw [(hmatch n).2.1, hc.sent, List.nil_append]

variable {T : Type} [DecidableEq T] {stored : Bool} {ports : T → Int32} {keystore : Keystore}
  {c : Config (Party T) (fun p => Sys p.Pc) (Net × (Party T → Disk))}

/-- In every run, both log files tell of the exchanges that have passed over the connections. -/
theorem logs_tell (hfits : ∀ j, args.Fits j)
    (hrun : (diskNet stored args ports).Runs (fun _ _ => True) (diskInit T keystore) c)
    {pc : ClientPc} (hclient : c.own .client = .ret pc) (hgo : pc.failed = false)
    {atClient atServer : Bytes} (hatClient : (c.shared.2 .client).file clientLogFn = some atClient)
    (hatServer : (c.shared.2 .server).file (serverLogFn (.ofNat args.port.toNat)) =
      some atServer) :
    ∃ (zs : List (Exchange × UInt64)) (missing : Bytes),
      atClient ++ pc.unlogged = clientLog zs ∧
      atServer ++ missing = serverLog (zs.map Prod.fst) ∧ missing.length ≤ logMessageSize ∧
      (∀ pc', c.own .server = .ret pc' → missing = []) ∧
      ∀ n, Conversation (c.shared.1.hosts .client) (c.shared.1.hosts .server) n
        (onConn (zs.map Prod.fst) n) := by
  have hflows := net_flows hrun.forget (netInit_flows T keystore)
  have hat := diskNet_client hfits hrun hclient
  have hserver := diskNet_server hrun
  obtain ⟨zs, hcalled, hordered, hzs⟩ := ClientLogs.tells hat hgo hatClient
  by_cases hidle : ∃ pc', c.own .server = .ret pc'
  · obtain ⟨pc', hpc'⟩ := hidle
    rw [hpc'] at hserver
    obtain ⟨xs, hcorrelated, hlog⟩ := ServerLogs.logsAll hserver
    obtain ⟨rfl, hall, hconversation⟩ :=
      hcorrelated.conversation hcalled hordered (hflows .server) (hflows .client)
    refine ⟨zs, [], hzs, ?_, Nat.zero_le _, fun _ _ => rfl, hconversation⟩
    rw [List.append_nil, hlog hall atServer hatServer]
  · obtain ⟨xs, hcorrelated, hlog⟩ := Env.watch_holds hserver fun _ _ hs => hs.logsAll.logsUp
    obtain ⟨rfl, hall, hconversation⟩ :=
      hcorrelated.conversation hcalled hordered (hflows .server) (hflows .client)
    obtain ⟨missing, hshort, hmissing⟩ := hlog hall atServer hatServer
    exact ⟨zs, missing, hzs, hmissing, hshort, fun pc' hpc' => absurd ⟨pc', hpc'⟩ hidle,
      hconversation⟩

/-- The times at which a message was received, which its sender does not know. -/
def RPCHeader.clearRecvTimes (h : RPCHeader) : RPCHeader :=
  h.clearReqRecvTime.clearResRecvTime

/-- Both sides log the same of each exchange, but for the times at which they have received the
messages, and for the body of the request. -/
theorem sameHeaders (zs : List (Exchange × UInt64)) :
    (zs.flatMap fun z => z.1.atClient z.2).map (·.header.clearRecvTimes) =
      ((zs.map Prod.fst).flatMap Exchange.atServer).map (·.header.clearRecvTimes) := by
  rw [List.flatMap_map, List.map_flatMap, List.map_flatMap]
  rfl

end Agreement

section Results

/-- For every run of a client against the server, while other clients may be served on other ports,
the log files of client and server tell of the same exchanges in the same order, which are all that
has passed over their connections.  The client has still to log the response that it has just
accepted, and the server at most one record, if it is not at the head of a loop. -/
theorem logs_agree {T : Type} [DecidableEq T] (stored : Bool) (args : Args) (ports : T → Int32)
    (keystore : Keystore) (hfits : ∀ j, args.Fits j)
    {c : Config (Party T) (fun p => Sys p.Pc) (Net × (Party T → Disk))}
    (hrun : (diskNet stored args ports).Runs (fun _ _ => True) (diskInit T keystore) c)
    {pc : ClientPc} (hclient : c.own .client = .ret pc) (hgo : pc.failed = false)
    {atClient atServer : Bytes} (hatClient : (c.shared.2 .client).file clientLogFn = some atClient)
    (hatServer : (c.shared.2 .server).file (serverLogFn (.ofNat args.port.toNat)) =
      some atServer) :
    ∃ (zs : List (Exchange × UInt64)) (missing : Bytes),
      atClient ++ pc.unlogged = clientLog zs ∧
      atServer ++ missing = serverLog (zs.map Prod.fst) ∧
      (zs.flatMap fun z => z.1.atClient z.2).map (·.header.clearRecvTimes) =
        ((zs.map Prod.fst).flatMap Exchange.atServer).map (·.header.clearRecvTimes) ∧
      missing.length ≤ logMessageSize ∧ (∀ pc', c.own .server = .ret pc' → missing = []) ∧
      ∀ n, Conversation (c.shared.1.hosts .client) (c.shared.1.hosts .server) n
        (onConn (zs.map Prod.fst) n) := by
  obtain ⟨zs, missing, hzs, hmissing, hshort, hwhole, hconversation⟩ :=
    logs_tell hfits hrun hclient hgo hatClient hatServer
  exact ⟨zs, missing, hzs, hmissing, sameHeaders zs, hshort, hwhole, hconversation⟩

/-- A client has logged two `ping`s and the responses, and so has the server. -/
theorem runs_logged_pings : ∃ (c : Config (Party Unit) (fun p => Sys p.Pc)
      (Net × (Party Unit → Disk))) (connection connection' : Connection) (response : Frame)
    (atClient atServer : Bytes),
    (diskNet true (twoRequests .Ping none none) fun _ => 12346).Runs (fun _ _ => True)
      (diskInit Unit ∅) c ∧
    c.own .client = .ret (.wait 3 0 3 connection 1 response) ∧
    c.own .server = .ret (.serve 3 4 connection') ∧
    (c.shared.2 .client).file clientLogFn = some atClient ∧
    (c.shared.2 .server).file (serverLogFn 12345) = some atServer := by
  obtain ⟨c, connection, connection', raw, now, hrun, hclient, hserving⟩ :=
    @runs_twoRequests Unit _ true (fun _ => 12346) (fun _ _ => True) .Ping none none
      (fun _ => trivial) (fun _ => trivial) (fun _ => .inl rfl) twoPings_fit nofun ∅
  obtain ⟨c, hrun, hclient, hserver', -⟩ := client_round hrun (fun _ => trivial) hclient rfl
    (exec_client_accepted hserving.joined.clientLog)
  obtain ⟨disks, hrun⟩ : ∃ disks,
      (diskNet true (twoRequests .Ping none none) fun _ => 12346).Runs (fun _ _ => True)
        (diskInit Unit ∅) ⟨c.own, c.shared, disks⟩ := hrun.note _
  have hatClient := diskNet_client twoPings_fit hrun hclient
  have hatServer := diskNet_server hrun
  dsimp only at hatClient hatServer
  rw [hserver', hserving.server] at hatServer
  refine ⟨⟨c.own, c.shared, disks⟩, connection, connection', raw.resReceived now, ?_⟩
  dsimp only
  generalize disks .client = d at hatClient ⊢
  generalize disks .server = d' at hatServer ⊢
  cases hatClient with
  | failed hfailed => cases hfailed
  | wait =>
    cases hatServer with
    | left hleft => cases hleft
    | serve =>
      exact ⟨_, _, hrun, hclient, hserver'.trans hserving.server, Disk.file_opened (by decide),
        Disk.file_opened (by decide)⟩

/-- Two `ping`s without a value. -/
theorem logs_agree_ping : ∃ (c : Config (Party Unit) (fun p => Sys p.Pc)
      (Net × (Party Unit → Disk))) (connection : Connection) (response : Frame)
    (zs : List (Exchange × UInt64)),
    (diskNet true (twoRequests .Ping none none) fun _ => 12346).Runs (fun _ _ => True)
      (diskInit Unit ∅) c ∧
    c.own .client = .ret (.wait 3 0 3 connection 1 response) ∧
    (c.shared.2 .client).file clientLogFn = some (clientLog zs) ∧
    (c.shared.2 .server).file (serverLogFn 12345) = some (serverLog (zs.map Prod.fst)) := by
  obtain ⟨c, connection, _, response, atClient, _, hrun, hclient, hserver, hatClient, hatServer⟩ :=
    runs_logged_pings
  obtain ⟨zs, missing, hzs, hmissing, -, -, hwhole, -⟩ :=
    logs_agree true (twoRequests .Ping none none) (fun _ => 12346) ∅ twoPings_fit hrun hclient rfl
      hatClient hatServer
  replace hzs : atClient ++ [] = clientLog zs := hzs
  rw [List.append_nil] at hzs
  rw [hwhole _ hserver, List.append_nil] at hmissing
  exact ⟨c, connection, response, zs, hrun, hclient, hzs ▸ hatClient, hmissing ▸ hatServer⟩

end Results

end SoftwareDynamics.Network

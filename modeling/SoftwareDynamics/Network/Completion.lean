import SoftwareDynamics.Network.Backlog

/-! A client whose command is not to quit can always finish: whatever has happened in a run, client
and server can go on until the client has made all of its requests, and has got a response to each
of them. -/

namespace SoftwareDynamics.Network

open ProofKit Prog

section Rank

variable {stored : Bool} {args : Args}

/-- How many rounds a client has left to do, where it waits for one round behind each response. -/
def ClientPc.rank (args : Args) : ClientPc → Nat
  | .start => args.nConns.toNat * (3 * args.rpcsPerConn.toNat + 3) + 2
  | .connect _ i _ => (args.nConns.toNat - i) * (3 * args.rpcsPerConn.toNat + 3) + 1
  | .request _ i _ _ j => (args.nConns.toNat - (i + 1)) * (3 * args.rpcsPerConn.toNat + 3) +
      3 * (args.rpcsPerConn.toNat - j) + 2
  | .accepted _ i _ _ j _ => (args.nConns.toNat - (i + 1)) * (3 * args.rpcsPerConn.toNat + 3) +
      3 * (args.rpcsPerConn.toNat - j) + 1
  | .wait _ i _ _ j _ => (args.nConns.toNat - (i + 1)) * (3 * args.rpcsPerConn.toNat + 3) +
      3 * (args.rpcsPerConn.toNat - j)
  | .exited _ | .faulted => 0

/-- Each round of a client's code, but for those that wait, lowers its rank. -/
theorem rank_lt_of_returns {pc pc' : ClientPc} (h : Returns (clientCode stored args pc) pc')
    (hgo : pc.over = false)
    (hwait : ∀ logFd i nextRpcId connection j response,
      pc ≠ .wait logFd i nextRpcId connection j response) : pc'.rank args < pc.rank args := by
  cases pc with
  | start =>
    obtain ⟨logFd, -, h⟩ := returns_bind_iff.mp h
    cases logFd with
    | none =>
      obtain rfl := returns_ret_iff.mp h
      exact Nat.succ_pos _
    | some logFd =>
      obtain rfl := returns_ret_iff.mp h
      exact Nat.lt_succ_self _
  | connect logFd i nextRpcId =>
    rw [clientCode] at h
    split_ifs at h with hi
    · obtain ⟨connection, -, h⟩ := returns_bind_iff.mp h
      cases connection with
      | error err =>
        obtain rfl := returns_ret_iff.mp h
        exact Nat.succ_pos _
      | ok connection =>
        obtain rfl := returns_ret_iff.mp h
        have hnext : args.nConns.toNat - i = args.nConns.toNat - (i + 1) + 1 := by omega
        simp only [ClientPc.rank]
        rw [hnext, Nat.add_one_mul (args.nConns.toNat - (i + 1))]
        omega
    · obtain rfl := returns_ret_iff.mp h
      exact Nat.succ_pos _
  | request logFd i nextRpcId connection j =>
    rw [clientCode] at h
    split_ifs at h with hj
    · obtain ⟨body, -, h⟩ := returns_bind_iff.mp h
      cases body with
      | none =>
        obtain rfl := returns_ret_iff.mp h
        exact Nat.succ_pos _
      | some body =>
        obtain ⟨sent, -, h⟩ := returns_bind_iff.mp h
        obtain ⟨response, -, h⟩ := returns_bind_iff.mp h
        cases response with
        | none =>
          obtain rfl := returns_ret_iff.mp h
          exact Nat.succ_pos _
        | some response =>
          obtain rfl := returns_ret_iff.mp h
          exact Nat.lt_succ_self _
    · obtain ⟨closed, -, h⟩ := returns_bind_iff.mp h
      obtain rfl := returns_ret_iff.mp h
      simp only [ClientPc.rank]
      omega
  | accepted logFd i nextRpcId connection j response =>
    obtain ⟨logged, -, h⟩ := returns_bind_iff.mp h
    obtain rfl := returns_ret_iff.mp h
    exact Nat.lt_succ_self _
  | wait logFd i nextRpcId connection j response => exact absurd rfl (hwait _ _ _ _ _ _)
  | exited => cases hgo
  | faulted => cases hgo

/-- The clock of the client may show any time. -/
theorem exec_client_nowUsec (s : Net) (now : UInt64) : Exec (netEnv .client) nowUsec s (some now)
    ⟨Function.update s.hosts .client ((s.hosts .client).look now), s.keystore⟩ := by
  have husec : Timeval.usec ⟨0, now.toInt64⟩ = now := by simp [Timeval.usec]
  have hact : (netEnv .client).act s .gettimeofday (some ⟨0, now.toInt64⟩)
      ⟨Function.update s.hosts .client ((s.hosts .client).look now), s.keystore⟩ :=
    ⟨_, _, congrArg _ husec.symm, trivial, rfl, rfl⟩
  refine (Exec.perform hact).bind ?_
  dsimp only
  rw [husec]
  exact .ret _ _

/-- A client that waits may find that it has waited for long enough. -/
theorem exec_client_waited (stored : Bool) (args : Args) (s : Net) {logFd : Fd} {i j : Nat}
    {nextRpcId : UInt32} {connection : Connection} {response : Frame} :
    ∃ s', Exec (netEnv .client)
      (clientCode stored args (.wait logFd i nextRpcId connection j response)) s
      (.request logFd i nextRpcId connection (j + 1)) s' := by
  obtain ⟨s', hnow⟩ : ∃ s', Exec (netEnv .client) nowUsec s
      (some ((args.waitMs * 1000).toUInt64 + response.header.resRecvTimeUs)) s' :=
    ⟨_, exec_client_nowUsec s _⟩
  refine ⟨s', hnow.bind ?_⟩
  dsimp only
  rw [UInt64.add_sub_cancel, if_neg (UInt64.lt_irrefl _)]
  exact .ret _ _

end Rank

section Completion

variable {T : Type} [DecidableEq T] {stored : Bool} {args : Args} {ports : T → Int32}
  {keystore : Keystore}  {c : NetConfig T}

/-- In every run, the server can go on until what the client is about to do has a result. -/
theorem client_helped (hreadable : ∀ j, args.Readable stored j) (hfits : ∀ j, args.Fits j)
    (hquit : args.command ≠ .Quit)
    (hrun : (net stored args ports).Runs (fun _ _ => True) (netInit T keystore) c) :
    Threads.Helped (party stored args ports) partyEnv .client c := by
  intro op k hown
  have hunused := (inTurn_of_wp (net_turns hreadable hfits hquit hrun .client)
    fun _ _ => ClientTurns.inTurn).unused
  obtain ⟨x, hreach, hblocked⟩ :=
    exists_blocked_server (.ofNat args.port.toNat) (c.own .server) hunused
  have hgo : (net stored args ports).Runs (fun _ _ => True) c (c.set .server x.1 x.2) :=
    (Threads.Runs.start c).reach (fun _ => trivial) hreach
  have hrun' := hrun.trans hgo
  have hclient := net_turns hreadable hfits hquit hrun' .client
  have hserver := net_turns hreadable hfits hquit hrun' .server
  have hsame : (c.set .server x.1 x.2).own .client = c.own .client :=
    Config.set_own_of_ne c (nofun : (.client : Party T) ≠ .server) _ _
  rw [hsame, hown] at hclient
  rw [Config.set_own_self] at hserver
  refine ⟨_, hgo, hsame, ?_⟩
  exact exists_act_of_blocked hclient hserver (net_flows hrun' (netInit_flows T keystore)) hblocked

/-- At each control point, a client may lower its rank. -/
theorem client_lowers (hreadable : ∀ j, args.Readable stored j) (hfits : ∀ j, args.Fits j)
    (hquit : args.command ≠ .Quit)
    (hrun : (net stored args ports).Runs (fun _ _ => True) (netInit T keystore) c) {pc : ClientPc}
    (hown : c.own .client = .ret pc) (hgo : pc.over = false) :
    ∃ c' pc', (net stored args ports).Runs (fun _ _ => True) c c' ∧ c'.own .client = .ret pc' ∧
      pc'.rank args < pc.rank args := by
  -- A round that waits may lead back to where it began, so there the reading is chosen.
  by_cases hwait : ∃ logFd i nextRpcId connection j response,
      pc = .wait logFd i nextRpcId connection j response
  · obtain ⟨logFd, i, nextRpcId, connection, j, response, rfl⟩ := hwait
    obtain ⟨s', hexec⟩ := exec_client_waited stored args c.shared
    cases net_clientAt hfits hrun hown with
    | stopped hover => cases hover
    | wait _ _ hj =>
      refine ⟨_, _, (Threads.Runs.start c).round (fun _ => trivial) hown hgo hexec,
        Config.set_own_self c _ _ s', ?_⟩
      simp only [ClientPc.rank]
      omega
  · have henter : (net stored args ports).Runs (fun _ _ => True) c
        (c.set .client (clientCode stored args pc) c.shared) :=
      (Threads.Runs.start c).enter (fun _ => trivial) hown hgo
    obtain ⟨c', pc', hrun', hown', hreturns⟩ := henter.exists_ret
      fun c' hrun' => client_helped hreadable hfits hquit (hrun.trans hrun')
    rw [Config.set_own_self] at hreturns
    refine ⟨c', pc', henter.trans hrun', hown', rank_lt_of_returns hreturns hgo ?_⟩
    exact fun logFd i nextRpcId connection j response heq =>
      hwait ⟨logFd, i, nextRpcId, connection, j, response, heq⟩

theorem client_may_halt (hreadable : ∀ j, args.Readable stored j) (hfits : ∀ j, args.Fits j)
    (hquit : args.command ≠ .Quit)
    (hrun : (net stored args ports).Runs (fun _ _ => True) (netInit T keystore) c) :
    ∃ c' pc, (net stored args ports).Runs (fun _ _ => True) c c' ∧ c'.own .client = .ret pc ∧
      pc.over = true := by
  refine Threads.Runs.exists_halted (P := party stored args ports) (t := .client)
    (ClientPc.rank args) (fun c hrun => client_helped hreadable hfits hquit hrun)
    (fun c pc hrun hown hgo => ?_) hrun
  exact client_lowers hreadable hfits hquit hrun hown hgo

/-- In every run of a client against the server, while other clients may be served on other ports,
a client whose command is not to quit does not fail.  Whatever has happened, client and server can
go on until the client has exited with the status 0, has made as many requests as it was asked to,
each of them as it was asked to, and has got the answer of the server to each of them. -/
theorem client_completes {T : Type} [DecidableEq T] (stored : Bool) (args : Args)
    (ports : T → Int32) (keystore : Keystore) (hreadable : ∀ j, args.Readable stored j)
    (hfits : ∀ j, args.Fits j) (hquit : args.command ≠ .Quit)
    {c : NetConfig T}
    (hrun : (net stored args ports).Runs (fun _ _ => True) (netInit T keystore) c) :
    (∀ pc, c.own .client = .ret pc → pc.over → pc = .exited 0) ∧
    ∃ (c' : NetConfig T) (xs : List Exchange),
      (net stored args ports).Runs (fun _ _ => True) c c' ∧ c'.own .client = .ret (.exited 0) ∧
      xs.length = args.nConns.toNat * args.rpcsPerConn.toNat ∧
      (∀ x ∈ xs, ∃ connection j rpcId, args.Asks connection j rpcId x.request) ∧
      ∀ n, Conversation (c'.shared.hosts .client) (c'.shared.hosts .server) n (onConn xs n) := by
  have eq_exited {c : NetConfig T} {pc : ClientPc}
      (hrun : (net stored args ports).Runs (fun _ _ => True) (netInit T keystore) c)
      (hown : c.own .client = .ret pc) (hover : pc.over) : pc = .exited 0 := by
    have hclient := net_turns hreadable hfits hquit hrun .client
    rw [hown] at hclient
    exact ClientTurns.eq_exited hclient hover
  refine ⟨fun pc hown hover => eq_exited hrun hown hover, ?_⟩
  obtain ⟨c', pc, hgo, hown, hover⟩ := client_may_halt hreadable hfits hquit hrun
  have hrun' := hrun.trans hgo
  obtain rfl := eq_exited hrun' hown hover
  have hflows := net_flows hrun' (netInit_flows T keystore)
  have hserver := net_server hrun' (.start (fun _ _ => ⟨rfl, rfl⟩) (correlated_init _ ()))
  obtain ⟨ys, hcorrelated⟩ := Env.watch_holds hserver fun _ _ hs => hs.correlated
  cases net_clientAt hfits hrun' hown with
  | stopped _ hne => exact absurd rfl hne
  | @exited _ xs hc hlength =>
    exact ⟨c', xs, hgo, hown, hlength, hc.asks,
      hcorrelated.conversation_onConn hc (hflows .server) (hflows .client)⟩

/-- Two `write`s, at their start, by a client that finds `NULL` where it has stored a string. -/
theorem client_completes_writes : ∃ (c : NetConfig Unit) (xs : List Exchange),
    (net false (twoRequests .Write (some ⟨ascii "k", by decide⟩) (some ⟨ascii "v", by decide⟩))
      fun _ => 12346).Runs (fun _ _ => True) (netInit Unit ∅) c ∧
    c.own .client = .ret (.exited 0) ∧ xs.length = 2 ∧
    ∀ n, Conversation (c.shared.hosts .client) (c.shared.hosts .server) n (onConn xs n) := by
  obtain ⟨-, c, xs, hrun, hown, hlength, -, hconversation⟩ :=
    client_completes false
      (twoRequests .Write (some ⟨ascii "k", by decide⟩) (some ⟨ascii "v", by decide⟩))
      (fun _ : Unit => 12346) ∅ (fun _ => trivial)
      (fun _ => show (ascii "v").length ≤ 5 * 256 * 1024 by decide) nofun (.start (netInit Unit ∅))
  exact ⟨c, xs, hrun, hown, hlength, hconversation⟩

end Completion

end SoftwareDynamics.Network

import SoftwareDynamics.Network.Deadlock
import Mathlib.Algebra.Order.BigOperators.Group.Finset

/-! While the client rests, the server goes on until it is blocked: each round of its code takes a
connection or some bytes off its backlog, or gives up a connection on which there is nothing left
to read. -/

namespace SoftwareDynamics.Network

open ProofKit Prog

section Backlog

/-- The bytes that the server has not read, and the connections that it has not accepted. -/
def Net.backlog (s : Net) : Nat :=
  (s.hosts .client).conns - (s.hosts .server).conns +
    ∑ n ∈ Finset.range (s.hosts .client).conns,
      (((s.hosts .client).sent n).length - ((s.hosts .server).got n).length)

/-- Only the server has gone on. -/
def Net.Serves (s s' : Net) : Prop :=
  s'.hosts .client = s.hosts .client ∧ (s.hosts .server).Grows (s'.hosts .server)

variable {s s' s'' : Net} {op : SysOp} {r : op.Result} {fd : Fd}

theorem Net.Serves.refl (s : Net) : s.Serves s := ⟨rfl, .refl _⟩

theorem Net.Serves.trans (h : s.Serves s') (h' : s'.Serves s'') : s.Serves s'' :=
  ⟨h'.1.trans h.1, h.2.trans h'.2⟩

theorem netEnv_serves (hact : (netEnv .server).act s op r s') : s.Serves s' :=
  netEnv_peerGrows hact

theorem Net.Serves.unread_le (h : s.Serves s') (n : Nat) :
    ((s'.hosts .client).sent n).length - ((s'.hosts .server).got n).length ≤
      ((s.hosts .client).sent n).length - ((s.hosts .server).got n).length := by
  rw [h.1]
  exact Nat.sub_le_sub_left (h.2.got n).length_le _

theorem Net.Serves.backlog_le (h : s.Serves s') : s'.backlog ≤ s.backlog := by
  have hconns := h.2.conns
  have hunread := Finset.sum_le_sum fun n (_ : n ∈ Finset.range (s.hosts .client).conns) =>
    h.unread_le n
  unfold backlog
  rw [h.1] at hunread ⊢
  omega

theorem Net.Serves.backlog_lt_of_conns (h : s.Serves s')
    (hlt : (s.hosts .server).conns < (s'.hosts .server).conns)
    (hle : (s'.hosts .server).conns ≤ (s.hosts .client).conns) : s'.backlog < s.backlog := by
  have hunread := Finset.sum_le_sum fun n (_ : n ∈ Finset.range (s.hosts .client).conns) =>
    h.unread_le n
  unfold backlog
  rw [h.1] at hunread ⊢
  omega

theorem Net.Serves.backlog_lt_of_got (h : s.Serves s') {n : Nat}
    (hn : n < (s.hosts .client).conns)
    (hlt : ((s.hosts .server).got n).length < ((s'.hosts .server).got n).length)
    (hle : ((s'.hosts .server).got n).length ≤ ((s.hosts .client).sent n).length) :
    s'.backlog < s.backlog := by
  have hconns := h.2.conns
  have hunread := Finset.sum_lt_sum
    (fun n (_ : n ∈ Finset.range (s.hosts .client).conns) => h.unread_le n)
    ⟨n, Finset.mem_range.mpr hn, by rw [h.1]; omega⟩
  unfold backlog
  rw [h.1] at hunread ⊢
  omega

/-- A `read` that delivers any bytes takes them off the backlog. -/
theorem backlog_lt_of_read {count : Nat} {r : (SysOp.read fd count).Result}
    (hact : (netEnv .server).act s (.read fd count) r s') (hunused : (s.hosts .client).Unused)
    (hne : delivered r ≠ []) : s'.backlog < s.backlog := by
  have hserves := netEnv_serves hact
  obtain ⟨h, keystore, hhost, hgets, -, rfl⟩ := hact
  rcases r with _ | chunk
  · exact hhost.elim
  obtain ⟨n, hn, rfl⟩ := hhost
  have hchunk : chunk.1 ≠ [] := hne
  have hpos := List.length_pos_of_ne_nil hchunk
  have hnext := hgets n hn
  rw [if_neg hchunk] at hnext
  have hle := hnext.length_le
  rw [List.length_append] at hle
  refine hserves.backlog_lt_of_got (n := n) ?_ ?_ ?_
  · by_contra hconns
    have hsent := (hunused n (Nat.le_of_not_lt hconns)).2
    rw [show (s.hosts Side.server.other).sent n = [] from hsent, List.length_nil] at hle
    omega
  · simp [Host.receive, hpos]
  · simpa [Host.receive, Side.other] using hle

/-- A connection that is accepted is taken off the backlog. -/
theorem backlog_lt_of_accept {r : (SysOp.accept fd).Result}
    (hact : (netEnv .server).act s (.accept fd) r s') : s'.backlog < s.backlog := by
  have hserves := netEnv_serves hact
  obtain ⟨h, keystore, hhost, hgets, -, rfl⟩ := hact
  rcases r with _ | ⟨peerFd, addr, addrLen⟩
  · exact hhost.elim
  obtain ⟨-, -, -, rfl⟩ := hhost
  refine hserves.backlog_lt_of_conns ?_ ?_
  · simp [Host.connect, Host.openFile]
  · simpa [Host.connect, Host.openFile, Side.other] using Nat.succ_le_of_lt hgets

end Backlog

section Rounds

variable {s s₀ : Net} {port : Int32} {connection : Connection} {logFd : Fd}

/-- Whatever the server does, only the server goes on. -/
theorem wp_serves {α : Type} (p : Sys α) (hs : s₀.Serves s) :
    wp (netEnv .server) p (fun _ s' => s₀.Serves s') s :=
  (only_true p).wp (fun _ _ _ hs => ⟨trivial, fun _ _ hact => hs.trans (netEnv_serves hact)⟩) hs

/-- A part of the server's code that has lowered the backlog where it does not give `fail`. -/
def Lowers {α : Type} (s₀ : Net) (fail : α) (a : α) (s : Net) : Prop :=
  s₀.Serves s ∧ (a = fail ∨ s.backlog < s₀.backlog)

/-- What goes on only from a part that has lowered the backlog. -/
theorem Lowers.wp_bind {α β : Type} {p : Sys α} {f : α → Sys β} {fail : α} {fail' : β}
    (hp : wp (netEnv .server) p (Lowers s₀ fail) s) (hf : f fail = pure fail') :
    wp (netEnv .server) (p >>= f) (Lowers s₀ fail') s := by
  rw [Prog.wp_bind]
  refine wp_mono hp fun a s' ha => ?_
  rcases ha.2 with rfl | hlt
  · rw [hf]
    exact ⟨ha.1, .inl rfl⟩
  · refine wp_mono (wp_serves (f a) (.refl s')) fun b s'' hs => ?_
    exact ⟨ha.1.trans hs, .inr (Nat.lt_of_le_of_lt hs.backlog_le hlt)⟩

/-- `readn` gets some bytes, or fails. -/
theorem wp_lowers_readn {fd : Fd} {n : Nat} (hn : 0 < n) (hunused : (s.hosts .client).Unused) :
    wp (netEnv .server) (readn fd n) (Lowers s none) s := by
  refine wp_readn (fun got s' => s.Serves s' ∧ (got ≠ [] → s'.backlog < s.backlog))
    ⟨.refl s, fun hne => absurd rfl hne⟩ (fun got k s' _ _ hs => ⟨trivial, fun r s'' hact => ?_⟩)
    fun got hgot s' hs => ⟨hs.1, .inr (hs.2 ?_)⟩
  -- Each `read` before one that fails has delivered some bytes.
  · have hserves := hs.1.trans (netEnv_serves hact)
    refine ⟨fun _ => ⟨hserves, .inl rfl⟩, fun hne => ⟨hserves, fun _ => ?_⟩⟩
    exact Nat.lt_of_lt_of_le (backlog_lt_of_read hact (by rwa [hs.1.1]) hne) hs.1.backlog_le
  · rintro rfl
    exact absurd hgot (Nat.ne_of_lt hn)

/-- A round of serving a connection lowers the backlog, or gives up the connection. -/
theorem wp_lowers_serveMessage (hunused : (s.hosts .client).Unused) :
    wp (netEnv .server) (serveMessage connection logFd) (Lowers s (some .CONTINUE)) s := by
  have hmessage : wp (netEnv .server) (recvMessage connection) (Lowers s none) s :=
    Lowers.wp_bind (wp_lowers_readn (by decide) hunused) rfl
  have hrequest : wp (netEnv .server) (rpcRecvReq connection) (Lowers s none) s :=
    Lowers.wp_bind hmessage rfl
  exact Lowers.wp_bind hrequest rfl

theorem wp_lowers_tcpAccept (fd : Fd) (connection : Connection) :
    wp (netEnv .server) (tcpAccept fd connection)
      (fun _ s' => s.Serves s' ∧ s'.backlog < s.backlog) s := by
  rw [tcpAccept, wp_bind, wp_perform]
  refine ⟨trivial, fun r s₁ hact => ?_⟩
  refine wp_mono (wp_serves _ (.refl s₁)) fun accepted s₂ hs₂ => ?_
  exact ⟨(netEnv_serves hact).trans hs₂,
    Nat.lt_of_le_of_lt hs₂.backlog_le (backlog_lt_of_accept hact)⟩

/-- How far a listener thread is from waiting for a connection. -/
def ListenPc.phase : ListenPc → Nat
  | .start => 2
  | .serve _ _ _ | .closing _ _ => 1
  | .accept _ _ | .returned | .exited => 0

theorem Net.Serves.lowers {s s' : Net} (h : s.Serves s') {m n : Nat} (hlt : m < n) :
    s.Serves s' ∧ 2 * s'.backlog + m < 2 * s.backlog + n := by
  have hle := h.backlog_le
  exact ⟨h, by omega⟩

/-- Each round of a listener thread's code lowers the backlog, or brings the thread nearer to
waiting for a connection. -/
theorem wp_listenCode_lowers {pc : ListenPc} (hunused : (s.hosts .client).Unused)
    (hgo : pc.over = false) :
    wp (netEnv .server) (listenCode port pc) (fun pc' s' => s.Serves s' ∧
      2 * s'.backlog + pc'.phase < 2 * s.backlog + pc.phase) s := by
  cases pc with
  | start =>
    rw [listenCode, wp_bind]
    refine wp_mono (wp_serves _ (.refl s)) fun r s₁ hs₁ => ?_
    rcases r with err | listenSockFd
    · exact hs₁.lowers (by decide)
    · dsimp only
      rw [wp_bind]
      refine wp_mono (wp_serves _ hs₁) fun logFd s₂ hs₂ => ?_
      cases logFd with
      | none => exact hs₂.lowers (by decide)
      | some logFd => exact hs₂.lowers (m := 0) (by decide)
  | accept listenSockFd logFd =>
    rw [listenCode, wp_bind]
    refine wp_mono (wp_serves _ (.refl s)) fun uninit s₁ hs₁ => ?_
    rw [wp_bind]
    refine wp_mono (wp_lowers_tcpAccept _ _) fun accepted s₂ hs₂ => ?_
    have hle := hs₁.backlog_le
    refine ⟨hs₁.trans hs₂.1, ?_⟩
    simp only [ListenPc.phase]
    omega
  | serve listenSockFd logFd connection =>
    rw [listenCode, wp_bind]
    refine wp_mono (wp_lowers_serveMessage hunused) fun action s₁ hs₁ => ?_
    obtain ⟨hserves, hlowers⟩ := hs₁
    cases action with
    | none =>
      have hlt := hlowers.resolve_left (by simp)
      refine ⟨hserves, ?_⟩
      simp only [ListenPc.phase]
      omega
    | some action =>
      dsimp only
      rw [wp_bind]
      refine wp_mono (wp_serves _ (.refl s₁)) fun closed s₂ hs₂ => ?_
      cases action with
      | CONTINUE => exact (hserves.trans hs₂).lowers Nat.zero_lt_one
      | QUIT =>
        have hlt := hlowers.resolve_left (by simp)
        have hle := hs₂.backlog_le
        refine ⟨hserves.trans hs₂, ?_⟩
        simp only [ListenPc.phase]
        omega
  | closing listenSockFd logFd =>
    rw [listenCode, wp_bind]
    refine wp_mono (wp_serves _ (.refl s)) fun closed s₁ hs₁ => ?_
    rw [wp_bind]
    refine wp_mono (wp_serves _ hs₁) fun closed s₂ hs₂ => ?_
    exact hs₂.lowers Nat.zero_lt_one
  | returned => cases hgo
  | exited => cases hgo

/-- While the client rests, the server goes on until it is blocked. -/
theorem exists_blocked_server (port : Int32) (p : Sys ListenPc)
    (hunused : (s.hosts .client).Unused) :
    ∃ c, (rpcListen port).Reach (netEnv .server) (p, s) c ∧
      (rpcListen port).Blocked (netEnv .server) c := by
  refine Process.exists_blocked (J := fun _ s => (s.hosts .client).Unused)
    (fun pc s => 2 * s.backlog + pc.phase) (fun pc s hgo hunused => ?_) ?_
  · exact wp_mono (wp_listenCode_lowers hunused hgo) fun pc' s' hs =>
      ⟨by rwa [hs.1.1], hs.2⟩
  · exact wp_mono (wp_serves p (.refl s)) fun pc s' hs => by rwa [hs.1]

end Rounds

end SoftwareDynamics.Network

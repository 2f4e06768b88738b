import SoftwareDynamics.Network.Enabling
import SoftwareDynamics.Network.Footprint

/-! Client and server take turns.  Each side waits for a frame only on the last connection that it
has opened, and only when it is the other's turn to send one: the client after its requests, and
the server after its responses.  The server closes a connection only after the client has. -/

namespace SoftwareDynamics.Network

open ProofKit Prog

section Frames

variable {P : Frame → Prop} {bytes bytes' : Bytes} {frames : List Frame}

/-- The bytes are the start of some frames, all of which satisfy `P`. -/
def Streams (P : Frame → Prop) (bytes : Bytes) : Prop :=
  ∃ frames, (∀ f ∈ frames, P f) ∧ bytes <+: Frame.stream frames

theorem Streams.nil : Streams P [] := ⟨[], by simp, List.nil_prefix⟩

theorem Streams.of_isPrefix (h : Streams P bytes') (hle : bytes <+: bytes') : Streams P bytes := by
  obtain ⟨frames, hframes, hbytes⟩ := h
  exact ⟨frames, hframes, hle.trans hbytes⟩

theorem Streams.of_frame {f : Frame} (hf : P f) (h : bytes <+: f.toBytes) : Streams P bytes :=
  ⟨[f], by simpa using hf, by simpa using h⟩

/-- Whole frames that have been carried, and what is behind them. -/
theorem Streams.split (h : Streams P (Frame.stream frames ++ bytes)) :
    (∀ f ∈ frames, P f) ∧ Streams P bytes := by
  obtain ⟨frames', hframes, hbytes⟩ := h
  obtain ⟨rest, rfl⟩ := Frame.stream_prefix ((List.prefix_append _ _).trans hbytes)
  rw [Frame.stream_append, List.prefix_append_right_inj] at hbytes
  exact ⟨fun f hf => hframes f (List.mem_append_left _ hf), rest,
    fun f hf => hframes f (List.mem_append_right _ hf), hbytes⟩

theorem Streams.of_toBytes {f : Frame} (h : Streams P f.toBytes) : P f := by
  have hone : Streams P (Frame.stream [f] ++ []) := by simpa using h
  exact hone.split.1 f List.mem_cons_self

theorem Streams.append (h : Streams P (Frame.stream frames)) (h' : Streams P bytes) :
    Streams P (Frame.stream frames ++ bytes) := by
  have hframes : Streams P (Frame.stream frames ++ []) := by rwa [List.append_nil]
  obtain ⟨rest, hrest, hbytes⟩ := h'
  refine ⟨frames ++ rest, fun f hf => ?_, ?_⟩
  · exact (List.mem_append.mp hf).elim (hframes.split.1 f) (hrest f)
  · rw [Frame.stream_append]
    exact (List.prefix_append_right_inj _).mpr hbytes

/-- What starts no frame is not carried. -/
theorem Streams.not_rejected (h : Streams P bytes) :
    ¬ ∀ rest, Frame.first (bytes ++ rest) = none := by
  intro hnone
  obtain ⟨frames, -, rest, hrest⟩ := h
  cases frames with
  | nil =>
    obtain ⟨rfl, -⟩ := List.append_eq_nil_iff.mp hrest
    exact absurd (hnone (Frame.request [] [] (by decide)).toBytes)
      (by rw [List.nil_append, Frame.first_toBytes]; simp)
  | cons f frames =>
    have hfirst := hnone rest
    rw [hrest, Frame.stream_cons, Frame.first_append] at hfirst
    cases hfirst

end Frames

section Turns

/-- How many more frames than it has got a side has sent when it waits for the next one. -/
def Side.lead : Side → Nat
  | .client => 1
  | .server => 0

/-- What a side sends. -/
def Side.Says (args : Args) : Side → Frame → Prop
  | .client, f => f.methodName = args.command.str
  | .server, _ => True

/-- A side waits for the next frame on connection `n`, which is its last one and the only one that
it has not closed. -/
structure Host.Expects (h : Host) (n lead : Nat) : Prop where
  last : n + 1 = h.conns
  isOpen : h.closed n = false
  earlier : ∀ m < n, h.closed m
  frames : ∃ (sent got : List Frame) (part : Bytes), h.sent n = Frame.stream sent ∧
    h.got n = Frame.stream got ++ part ∧ Frame.first part = none ∧ sent.length = got.length + lead

/-- The operations that may have to wait are performed only where this is the right thing to do. -/
def Side.Turn (side : Side) (h : Host) : SysOp → Prop
  | .read fd _ => (∃ n, h.files fd = some (.connection n) ∧ h.Expects n side.lead) ∧
    (side = .server → ∃ listenSockFd, h.files listenSockFd = some .socket)
  | .accept _ => side = .server ∧ ∀ n < h.conns, h.closed n
  | .connect _ _ => side = .client
  | _ => True

/-- The side of the client, among a side and the other one. -/
def Side.ofClient (side : Side) (v : Host × Host) : Host :=
  match side with
  | .client => v.1
  | .server => v.2

/-- A side that has sent, got and closed only what it should have so far. -/
structure InTurn (args : Args) (side : Side) (v : Host × Host) : Prop where
  unused : v.1.Unused
  closed_lt : ∀ n, v.1.closed n → n < v.1.conns
  carries : ∀ n, Streams (side.Says args) (v.1.sent n)
  heard : ∀ n, Streams (side.other.Says args) (v.1.got n)
  behind : v.1.conns ≤ (side.ofClient v).conns
  closed_behind : ∀ n, v.1.closed n → (side.ofClient v).closed n

/-- What the other side has done by the time that an operation has its result. -/
def Side.Told (side : Side) (h : Host) (v' : Host × Host) (op : SysOp) (r : op.Result) : Prop :=
  match op, r with
  | .read fd _, some chunk => chunk.1 = [] →
    ∀ n, h.files fd = some (.connection n) → (side.ofClient v').closed n
  | .accept _, _ => h.conns < v'.2.conns
  | _, _ => True

/-- One side as its program sees it, and the other one, which may go on at any time. -/
def turnEnv (args : Args) (side : Side) : Env SysOp SysOp.Result (Host × Host) where
  allows v op := InTurn args side v ∧ v.1.Enables op ∧ side.Turn v.1 op
  act v op r v' := v.1.act op r v'.1 ∧ v.2.Grows v'.2 ∧
    (∀ n, Streams (side.other.Says args) (v'.1.got n)) ∧ side.Told v.1 v' op r

/-- What the program of the other side may change. -/
def PeerGrows (v v' : Host × Host) : Prop := v'.1 = v.1 ∧ v.2.Grows v'.2

variable {args : Args} {side : Side} {h h' peer peer' : Host} {n : Nat}

theorem Side.ofClient_grows (side : Side) (hown : h.Grows h') (hpeer : peer.Grows peer') :
    (side.ofClient (h, peer)).Grows (side.ofClient (h', peer')) := by
  cases side with
  | client => exact hown
  | server => exact hpeer

theorem InTurn.mono (hk : InTurn args side (h, peer)) (hpeer : peer.Grows peer') :
    InTurn args side (h, peer') where
  unused := hk.unused
  closed_lt := hk.closed_lt
  carries := hk.carries
  heard := hk.heard
  behind := Nat.le_trans hk.behind (side.ofClient_grows (.refl h) hpeer).conns
  closed_behind n hn := (side.ofClient_grows (.refl h) hpeer).closed n (hk.closed_behind n hn)

theorem turnEnv_stable (args : Args) (side : Side) : (turnEnv args side).Stable PeerGrows where
  allows v v' op hR hallows := by
    obtain ⟨h, peer⟩ := v
    obtain ⟨_, peer'⟩ := v'
    obtain ⟨rfl, hpeer⟩ := hR
    exact ⟨hallows.1.mono hpeer, hallows.2⟩
  act v v' op r t hR hact := by
    obtain ⟨h, peer⟩ := v
    obtain ⟨_, peer'⟩ := v'
    obtain ⟨rfl, hpeer⟩ := hR
    exact ⟨hact.1, hpeer.trans hact.2.1, hact.2.2⟩

end Turns

section Connection

/-- A side on whose connection as many frames have been sent as have been got. -/
structure Talking (args : Args) (side : Side) (sockFd logFd : Fd) (n : Nat) (v : Host × Host) :
    Prop extends InTurn args side v where
  log : v.1.files logFd = some .log
  sock : v.1.files sockFd = some (.connection n)
  last : n + 1 = v.1.conns
  isOpen : v.1.closed n = false
  earlier : ∀ m < n, v.1.closed m
  frames : ∃ sent got : List Frame, v.1.sent n = Frame.stream sent ∧ v.1.got n = Frame.stream got ∧
    sent.length = got.length
  listens : side = .server → ∃ listenSockFd, v.1.files listenSockFd = some .socket

/-- At its end of a connection, a side reads only what it still has to get of the next frame, after
it has sent as many frames as it should have. -/
def ReadsInTurn {κ : Type} (lead : Nat) (e : Endpoint κ) : SysOp → Prop
  | .read _ _ => Frame.first e.got = none ∧
    ∃ frames : List Frame, e.sent = Frame.stream frames ∧ frames.length = lead
  | _ => True

/-- A side after what its end of connection `n` has seen, while the other side has gone on. -/
structure Went (args : Args) (side : Side) (n : Nat) (v : Host × Host) (e : Endpoint Unit)
    (v' : Host × Host) : Prop where
  own : v'.1 = v.1.after n e
  peer : v.2.Grows v'.2
  heard : ∀ n, Streams (side.other.Says args) (v'.1.got n)
  ended : e.ended → (side.ofClient v').closed n

variable {args : Args} {side : Side} {connection : Connection} {sockFd logFd : Fd} {n : Nat}
  {v v' : Host × Host} {e : Endpoint Unit}

theorem Went.ofClient_grows (hw : Went args side n v e v') :
    (side.ofClient v).conns ≤ (side.ofClient v').conns ∧
      ∀ m, (side.ofClient v).closed m → (side.ofClient v').closed m := by
  cases side with
  | client => simp [Side.ofClient, hw.own]
  | server => exact ⟨hw.peer.conns, hw.peer.closed⟩

theorem Talking.inTurn (ht : Talking args side sockFd logFd n v) (hw : Went args side n v e v')
    (hsent : Streams (side.Says args) e.sent) : InTurn args side v' where
  unused := by
    rw [hw.own]
    exact ht.unused.after (Nat.lt_of_succ_le (Nat.le_of_eq ht.last))
  closed_lt := by
    rw [hw.own]
    exact ht.closed_lt
  carries m := by
    rw [hw.own]
    by_cases hm : m = n
    · subst hm
      obtain ⟨sent, -, hs, -⟩ := ht.frames
      rw [Host.after_sent, hs]
      exact (hs ▸ ht.carries m).append hsent
    · simpa [Host.after, hm] using ht.carries m
  heard := hw.heard
  behind := by
    rw [hw.own]
    exact Nat.le_trans ht.behind hw.ofClient_grows.1
  closed_behind m hm := by
    rw [hw.own] at hm
    exact hw.ofClient_grows.2 m (ht.closed_behind m hm)

theorem Talking.fd_ne {fd : Fd} {file : File} (ht : Talking args side sockFd logFd n v)
    (hfd : v.1.files fd = some file) (hfile : file ≠ .connection n) : fd ≠ sockFd :=
  Host.fd_ne hfd ht.sock (mt Option.some.inj hfile)

theorem Talking.log_ne (ht : Talking args side sockFd logFd n v) : logFd ≠ sockFd :=
  ht.fd_ne ht.log (by simp)

/-- The bytes of the next frame that have been got. -/
theorem Talking.heard_next (ht : Talking args side sockFd logFd n v)
    (hw : Went args side n v e v') : Streams (side.other.Says args) e.got := by
  obtain ⟨-, got, -, hg, -⟩ := ht.frames
  have hheard := hw.heard n
  rw [hw.own, Host.after_got, hg] at hheard
  exact hheard.split.2

/-- A side that has sent and got as many frames as before. -/
theorem Talking.went (ht : Talking args side sockFd logFd n v) (hw : Went args side n v e v')
    (hsaid : Streams (side.Says args) e.sent)
    (hframes : ∃ sent got : List Frame, e.sent = Frame.stream sent ∧ e.got = Frame.stream got ∧
      sent.length = got.length) : Talking args side sockFd logFd n v' where
  toInTurn := ht.inTurn hw hsaid
  log := by
    rw [hw.own]
    exact ht.log
  sock := by
    rw [hw.own]
    exact ht.sock
  last := by
    rw [hw.own]
    exact ht.last
  isOpen := by
    rw [hw.own]
    exact ht.isOpen
  earlier := by
    rw [hw.own]
    exact ht.earlier
  frames := by
    obtain ⟨sent, got, hsent, hgot, hlength⟩ := hframes
    obtain ⟨sent', got', hs, hg, hlen⟩ := ht.frames
    refine ⟨sent' ++ sent, got' ++ got, ?_, ?_, by simp [hlen, hlength]⟩
    · rw [hw.own, Host.after_sent, hs, hsent, Frame.stream_append]
    · rw [hw.own, Host.after_got, hg, hgot, Frame.stream_append]
  listens := by
    rw [hw.own]
    exact ht.listens

/-- Only a `read` meets the end of a stream. -/
theorem endpointEnv_ended {κ : Type} {ops : StoreOps κ} {arrives : Bytes → Bytes → Prop}
    {e e' : Endpoint κ} {op : SysOp} {r : op.Result}
    (hact : (endpointEnv sockFd logFd ops arrives).act e op r e')
    (hread : ∀ fd count, op ≠ .read fd count) : e'.ended = e.ended := by
  cases op with
  | read fd count => exact absurd rfl (hread fd count)
  | write fd buf =>
    obtain ⟨-, rfl⟩ := hact
    split_ifs <;> rfl
  | gettimeofday =>
    rcases r with _ | now
    · exact hact.elim
    obtain rfl : e' = e.look now.usec := hact
    rfl
  | malloc size =>
    obtain ⟨-, rfl⟩ := hact
    rfl
  | indeterminate size =>
    obtain rfl : e' = e := hact
    rfl
  | emplace key value =>
    obtain ⟨store, -, rfl⟩ := hact
    rfl
  | find key =>
    obtain ⟨store, -, rfl⟩ := hact
    rfl
  | _ => exact hact.elim

/-- What is allowed at one end of a connection, its side may perform. -/
theorem Talking.enables {I : Endpoint Unit → Prop} {op : SysOp}
    (ht : Talking args side connection.sockFd logFd n v)
    (hallows : (watched connection logFd .shared I).allows e op) : (v.1.after n e).Enables op := by
  cases op with
  | read fd count =>
    obtain ⟨rfl, hcount, -⟩ := hallows.2
    exact ⟨hcount, n, ht.sock⟩
  | write fd buf =>
    rcases hallows.2 with rfl | rfl
    · exact .inr ⟨n, ht.sock⟩
    · exact .inl ht.log
  | gettimeofday => trivial
  | malloc size => trivial
  | indeterminate size => trivial
  | emplace key value => trivial
  | find key => trivial
  | _ => exact hallows.2.elim

theorem Talking.turn {I : Endpoint Unit → Prop} {op : SysOp}
    (ht : Talking args side connection.sockFd logFd n v) (hreads : ReadsInTurn side.lead e op)
    (hallows : (watched connection logFd .shared I).allows e op) :
    side.Turn (v.1.after n e) op := by
  cases op with
  | read fd count =>
    obtain ⟨rfl, -, -⟩ := hallows.2
    obtain ⟨hfirst, frames, hsent, hlength⟩ := hreads
    obtain ⟨sent, got, hs, hg, hlen⟩ := ht.frames
    refine ⟨⟨n, ht.sock, ht.last, ht.isOpen, ht.earlier, sent ++ frames, got, e.got, ?_, ?_,
      hfirst, ?_⟩, ht.listens⟩
    · rw [Host.after_sent, hs, hsent, Frame.stream_append]
    · rw [Host.after_got, hg]
    · rw [List.length_append, hlen, hlength]
  | gettimeofday => trivial
  | malloc size => trivial
  | indeterminate size => trivial
  | emplace key value => trivial
  | find key => trivial
  | write fd buf => trivial
  | _ => exact hallows.2.elim

/-- What an operation does to its side, it does at that end of the connection. -/
theorem Talking.next {I : Endpoint Unit → Prop} {op : SysOp} {r : op.Result} {v'' : Host × Host}
    (ht : Talking args side connection.sockFd logFd n v) (hw : Went args side n v e v')
    (hallows : (watched connection logFd .shared I).allows e op)
    (hr : (turnEnv args side).act v' op r v'') :
    ∃ e', (watched connection logFd .shared I).act e op r e' ∧ Went args side n v e' v'' := by
  obtain ⟨hact, hpeer, hheard, htold⟩ := hr
  have hgrows : (side.ofClient v').Grows (side.ofClient v'') :=
    side.ofClient_grows (Host.act_grows hact) hpeer
  rw [hw.own] at hact htold
  obtain ⟨-, hfollow⟩ := host_simulates (I := I) (G := fun _ => True) ht.sock ht.log
    (fun _ _ => trivial) e _ op rfl hallows
  obtain ⟨e', he, hown⟩ := hfollow r (v''.1, ()) ⟨hact, shared_act op r⟩
  refine ⟨e', he, congrArg Prod.fst hown, hw.peer.trans hpeer, hheard, fun hended => ?_⟩
  by_cases hbefore : e.ended
  · exact hgrows.closed n (hw.ended hbefore)
  -- Only a `read` that delivers nothing tells a side that the other one has closed.
  have he : (endpointEnv connection.sockFd logFd .shared anything).act e op r e' := he
  by_cases hread : ∃ fd count, op = .read fd count
  · obtain ⟨fd, count, rfl⟩ := hread
    rcases r with _ | chunk
    · exact hact.elim
    obtain ⟨rfl, -, rfl⟩ := he
    refine htold ?_ n ht.sock
    simpa [Endpoint.receive, hbefore] using hended
  · rw [endpointEnv_ended he (by simpa using hread)] at hended
    exact absurd hended hbefore

/-- What a program does at one end of a connection where it reads only at its turn, it does on its
side, and takes turns there. -/
theorem Talking.wp {α : Type} {p : Sys α} {Q : α → Endpoint Unit → Prop}
    {I : Endpoint Unit → Prop} (ht : Talking args side connection.sockFd logFd n v)
    (hI : ∀ e, I e → Streams (side.Says args) e.sent)
    (hp : Prog.wp ((watched connection logFd .shared I).guard (ReadsInTurn side.lead)) p Q
      (.fresh ())) :
    Prog.wp (turnEnv args side) p (fun a v' => ∃ e, Went args side n v e v' ∧ Q a e) v := by
  have hsim : ((watched connection logFd .shared I).guard (ReadsInTurn side.lead)).Simulates
      (turnEnv args side) (Went args side n v) := by
    rintro e v' op hw ⟨hreads, hallows⟩
    refine ⟨⟨ht.inTurn hw (hI e hallows.1), ?_, ?_⟩, fun r v'' hr => ht.next hw hallows hr⟩
    · rw [hw.own]
      exact ht.enables hallows
    · rw [hw.own]
      exact ht.turn hreads hallows
  exact hsim.wp hp ⟨by rw [Host.after_fresh], .refl _, ht.heard, nofun⟩

end Connection

section Steps

variable {args : Args} {side : Side} {h h' peer peer' : Host} {fd logFd : Fd}

/-- What a side has sent, got and closed does not depend on its descriptors and its clock. -/
theorem InTurn.quiet (hk : InTurn args side (h, peer)) (hpeer : peer.Grows peer')
    (hgot : h'.got = h.got) (hsent : h'.sent = h.sent) (hconns : h'.conns = h.conns)
    (hclosed : h'.closed = h.closed) : InTurn args side (h', peer') := by
  have hclient : (side.ofClient (h, peer)).Grows (side.ofClient (h', peer')) :=
    side.ofClient_grows
      ⟨by rw [hconns], by simp [hgot], by simp [hsent], by simp [hclosed]⟩ hpeer
  refine ⟨?_, ?_, ?_, ?_, ?_, ?_⟩
  · simpa [Host.Unused, hgot, hsent, hconns] using hk.unused
  · simpa [hclosed, hconns] using hk.closed_lt
  · simpa [hsent] using hk.carries
  · simpa [hgot] using hk.heard
  · simpa [hconns] using Nat.le_trans hk.behind hclient.conns
  · simpa [hclosed] using fun n hn => hclient.closed n (hk.closed_behind n hn)

theorem InTurn.connect (hk : InTurn args side (h, peer)) (hpeer : peer.Grows peer')
    (hbehind : h.conns < (side.ofClient (h.connect fd, peer')).conns) :
    InTurn args side (h.connect fd, peer') where
  unused n hn := hk.unused n (Nat.le_of_succ_le hn)
  closed_lt n hn := Nat.lt_succ_of_lt (hk.closed_lt n hn)
  carries := hk.carries
  heard := hk.heard
  behind := hbehind
  closed_behind n hn := by
    have hclosed : (side.ofClient (h, peer')).closed n :=
      (side.ofClient_grows (.refl h) hpeer).closed n (hk.closed_behind n hn)
    cases side <;> exact hclosed

theorem InTurn.close {n : Nat} (hk : InTurn args side (h, peer)) (hpeer : peer.Grows peer')
    (hsock : h.files fd = some (.connection n)) (hn : n < h.conns)
    (hclosed : (side.ofClient (h.close fd, peer')).closed n) :
    InTurn args side (h.close fd, peer') where
  unused := hk.unused
  closed_lt m hm := by
    rcases (h.close_closed fd m).mp hm with hfd | hbefore
    · obtain rfl : n = m := File.connection.inj (Option.some.inj (hsock.symm.trans hfd))
      exact hn
    · exact hk.closed_lt m hbefore
  carries := hk.carries
  heard := hk.heard
  behind := by
    have hle := Nat.le_trans hk.behind (side.ofClient_grows (.refl h) hpeer).conns
    cases side <;> exact hle
  closed_behind m hm := by
    rcases (h.close_closed fd m).mp hm with hfd | hbefore
    · obtain rfl : n = m := File.connection.inj (Option.some.inj (hsock.symm.trans hfd))
      exact hclosed
    · cases side with
      | client => exact hm
      | server => exact hpeer.closed m (hk.closed_behind m hbefore)

/-- A side that closes its last connection has closed all of them. -/
theorem Host.closed_of_close {n : Nat} (hsock : h.files fd = some (.connection n))
    (hlast : n + 1 = h.conns) (hearlier : ∀ m < n, h.closed m) (m : Nat)
    (hm : m < (h.close fd).conns) : (h.close fd).closed m := by
  have hm : m < h.conns := hm
  rw [Host.close_closed]
  by_cases hmn : m = n
  · exact .inl (hmn ▸ hsock)
  · exact .inr (hearlier m (by omega))

/-- Nothing has been sent on the next connection. -/
theorem InTurn.talking (hk : InTurn args side (h, peer))
    (hk' : InTurn args side (h.connect fd, peer')) (hclosed : ∀ n < h.conns, h.closed n)
    (hlog : h.files logFd = some .log) (hne : logFd ≠ fd)
    (hlistens : side = .server → ∃ listenSockFd, (h.connect fd).files listenSockFd = some .socket) :
    Talking args side fd logFd h.conns (h.connect fd, peer') where
  toInTurn := hk'
  log := by simp [Host.connect, Host.openFile, hne, hlog]
  sock := by simp [Host.connect, Host.openFile]
  last := rfl
  isOpen := by
    by_contra hopen
    exact absurd (hk.closed_lt h.conns (by simpa [Host.connect, Host.openFile] using hopen))
      (Nat.lt_irrefl _)
  earlier := hclosed
  frames := by
    obtain ⟨hgot, hsent⟩ := hk.unused h.conns (Nat.le_refl _)
    exact ⟨[], [], hsent, hgot, rfl⟩
  listens := hlistens

theorem Talking.mono {n : Nat} (ht : Talking args side fd logFd n (h, peer))
    (hpeer : peer.Grows peer') : Talking args side fd logFd n (h, peer') :=
  { ht with toInTurn := ht.toInTurn.mono hpeer }

theorem wp_turn {op : SysOp} {Q : op.Result → Host × Host → Prop}
    (hk : InTurn args side (h, peer)) (henables : h.Enables op) (hturn : side.Turn h op)
    (hQ : ∀ r h' peer', h.act op r h' → peer.Grows peer' → side.Told h (h', peer') op r →
      Q r (h', peer')) : wp (turnEnv args side) (sys op) Q (h, peer) :=
  ⟨⟨hk, henables, hturn⟩, fun r v' hr => hQ r v'.1 v'.2 hr.1 hr.2.1 hr.2.2.2⟩

end Steps

section Receiving

variable {κ : Type} {ops : StoreOps κ} {connection : Connection} {logFd : Fd} {lead : Nat}
  {I : Endpoint κ → Prop} {e : Endpoint κ}

/-- A receiver reads only while it has no complete frame. -/
theorem wp_recvMessage_waits (hgot : e.got = [])
    (hsent : ∃ frames : List Frame, e.sent = Frame.stream frames ∧ frames.length = lead)
    (hI : ∀ got, I { e with got }) :
    wp ((watched connection logFd ops I).guard (ReadsInTurn lead)) (recvMessage connection)
      (fun _ _ => True) e := by
  refine Receives.wp_recvMessage (I := fun got e' => e' = { e with got })
    ⟨fun got count e' hfirst hcount he' => ?_, fun got n e' he' => ?_, fun _ _ _ _ => trivial,
      fun _ _ _ => trivial⟩ (by rw [← hgot])
  · subst he'
    refine ⟨⟨⟨hfirst, hsent⟩, hI got, rfl, hcount, [], trivial, Nat.zero_le _⟩,
      fun r e'' hr => ⟨fun _ => trivial, fun hne => ?_⟩⟩
    cases r with
    | none => exact hr.elim
    | some chunk =>
      obtain rfl := hr.2.2
      have hchunk : chunk.1.isEmpty = false := by simpa [delivered] using hne
      simp [Endpoint.receive, delivered, hchunk]
  · subst he'
    refine ⟨⟨trivial, hI got, trivial⟩, fun r e'' hr => ?_⟩
    obtain ⟨-, rfl⟩ := hr
    exact ⟨rfl, fun _ => trivial⟩

theorem wp_recvStamped_waits {stamp : Frame → UInt64 → Frame} (hgot : e.got = [])
    (hsent : ∃ frames : List Frame, e.sent = Frame.stream frames ∧ frames.length = lead)
    (hI : ∀ got, I { e with got }) {Q : Option Frame → Endpoint κ → Prop}
    (h : wp (watched connection logFd ops I) (recvStamped connection stamp) Q e) :
    wp ((watched connection logFd ops I).guard (ReadsInTurn lead)) (recvStamped connection stamp)
      Q e := by
  refine Env.wp_guard_bind h (wp_recvMessage_waits hgot hsent hI) fun message => ?_
  cases message with
  | none => exact only_pure _
  | some message =>
    refine (nowUsec_only fun _ => trivial).bind fun now => ?_
    cases now <;> exact only_pure _

end Receiving

end SoftwareDynamics.Network

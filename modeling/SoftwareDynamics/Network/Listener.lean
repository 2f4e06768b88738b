import SoftwareDynamics.Network.Footprint

/-! The descriptors of a listener thread, whose loop accepts connections, serves each of them and
closes it again. -/

namespace SoftwareDynamics.Network

open ProofKit Prog

section Model

/-- What a thread does to descriptors. -/
inductive DescriptorCall
  | accepted (fd : Fd)
  | closed (fd : Fd)
  deriving DecidableEq

/-- The descriptors that are open, and the calls that have opened and closed some, the latest one
first. -/
structure Descriptors where
  opened : List Fd
  calls : List DescriptorCall

def Descriptors.accept (s : Descriptors) (fd : Fd) : Descriptors :=
  ⟨fd :: s.opened, .accepted fd :: s.calls⟩

def Descriptors.close (s : Descriptors) (fd : Fd) : Descriptors :=
  ⟨s.opened.filter (· ≠ fd), .closed fd :: s.calls⟩

/-- Each operation may have any result that satisfies `ok`.  An accepted descriptor is a new one. -/
def descriptorEnv (ok : (op : SysOp) → op.Result → Prop) :
    Env SysOp SysOp.Result Descriptors where
  allows _ _ := True
  act s op r s' := ok op r ∧
    match op, r with
    | .accept _, .ok (fd, _) => fd ∉ s.opened ∧ s' = s.accept fd
    | .close fd, _ => s' = s.close fd
    | _, _ => s' = s

/-- `accept` and `getsockname` succeed, and report an address of the expected length. -/
def Accepting : (op : SysOp) → op.Result → Prop
  | .accept _, r => ∃ fd addr, r = .ok (fd, addr, sockAddrLen)
  | .getsockname _, r => ∃ addr, r = .ok (addr, sockAddrLen)
  | _, _ => True

/-- The loop of `rpc_listen`. -/
def listenLoop (port : Int32) : Process SysOp SysOp.Result ListenPc where
  code := listenCode port
  halted := ListenPc.left

/-- Each accepted descriptor is closed before the next one is accepted, and no other one is closed.
The descriptor is the one that is still to be closed. -/
inductive Paired : Option Fd → List DescriptorCall → Prop
  | start : Paired none []
  | accepted {fd : Fd} {calls : List DescriptorCall} :
      Paired none calls → Paired (some fd) (.accepted fd :: calls)
  | closed {fd : Fd} {calls : List DescriptorCall} :
      Paired (some fd) calls → Paired none (.closed fd :: calls)

/-- The discipline of a thread that listens on a socket. -/
structure Disciplined (listenSockFd : Fd) (c : Sys ListenPc × Descriptors) : Prop where
  listening : listenSockFd ∈ c.2.opened
  paired : ∃ current, Paired current c.2.calls
  head : ∀ listenSockFd' logFd, c.1 = .ret (.accept listenSockFd' logFd) → Paired none c.2.calls
  serving : ∀ listenSockFd' logFd connection,
    c.1 = .ret (.serve listenSockFd' logFd connection) →
    Paired (some connection.sockFd) c.2.calls
  behind : ∀ listenSockFd' logFd, c.1 = .ret (.closing listenSockFd' logFd) → Paired none c.2.calls

end Model

section Discipline

variable {listenSockFd : Fd} {s : Descriptors}

/-- What holds at the control points of the loop. -/
inductive AtPc (listenSockFd : Fd) : ListenPc → Descriptors → Prop
  | accept {logFd : Fd} {s : Descriptors} : listenSockFd ∈ s.opened → Paired none s.calls →
      AtPc listenSockFd (.accept listenSockFd logFd) s
  | serve {logFd : Fd} {connection : Connection} {s : Descriptors} : listenSockFd ∈ s.opened →
      connection.sockFd ≠ listenSockFd → Paired (some connection.sockFd) s.calls →
      AtPc listenSockFd (.serve listenSockFd logFd connection) s
  | closing {logFd : Fd} {s : Descriptors} : listenSockFd ∈ s.opened → Paired none s.calls →
      AtPc listenSockFd (.closing listenSockFd logFd) s

/-- What holds between any two operations. -/
def Listening (listenSockFd : Fd) (s : Descriptors) : Prop :=
  listenSockFd ∈ s.opened ∧ ∃ current, Paired current s.calls

def watchedDescriptors (listenSockFd : Fd) : Env SysOp SysOp.Result Descriptors :=
  (descriptorEnv Accepting).watch (Listening listenSockFd)

theorem AtPc.listening {pc : ListenPc} (h : AtPc listenSockFd pc s) : Listening listenSockFd s := by
  cases h with
  | accept hopen hpaired => exact ⟨hopen, none, hpaired⟩
  | serve hopen _ hpaired => exact ⟨hopen, _, hpaired⟩
  | closing hopen hpaired => exact ⟨hopen, none, hpaired⟩

/-- Serving a connection does nothing to descriptors. -/
theorem wp_serving {α : Type} {p : Sys α} {sock logFd : Fd} (hp : p.Only (SysOp.Serving sock logFd))
    (h : Listening listenSockFd s) :
    wp (watchedDescriptors listenSockFd) p (fun _ s' => s' = s) s := by
  refine hp.wp (fun s' op hop hs => ?_) rfl
  subst hs
  refine ⟨⟨h, trivial⟩, fun r s' hr => ?_⟩
  cases op <;> first | exact hr.2 | exact hop.elim

theorem Listening.accept {fd : Fd} (hopen : listenSockFd ∈ s.opened)
    (hpaired : Paired none s.calls) :
    Listening listenSockFd (s.accept fd) :=
  ⟨List.mem_cons_of_mem fd hopen, _, hpaired.accepted⟩

/-- Where `accept` and `getsockname` do their work, `tcp_accept` gives the accepted descriptor. -/
theorem wp_tcpAccept_opened (hopen : listenSockFd ∈ s.opened) (hpaired : Paired none s.calls)
    (connection : Connection) :
    wp (watchedDescriptors listenSockFd) (tcpAccept listenSockFd connection)
      (fun r s' => r.2.sockFd ∉ s.opened ∧ s' = s.accept r.2.sockFd) s := by
  refine wp_tcpAccept (fun fd _ s' => fd ∉ s.opened ∧ s' = s.accept fd)
    ⟨⟨⟨hopen, none, hpaired⟩, trivial⟩, ?_⟩ ?_
  · rintro r s' ⟨⟨fd, addr, rfl⟩, hopened⟩
    exact hopened
  · rintro fd addr _ ⟨hnew, rfl⟩
    refine ⟨⟨.accept hopen hpaired, trivial⟩, ?_⟩
    rintro r s' ⟨⟨addr, rfl⟩, rfl⟩
    exact ⟨hnew, rfl⟩

/-- Each round of the loop keeps the discipline. -/
theorem wp_listenLoop (port : Int32) {pc : ListenPc} (hgo : (listenLoop port).halted pc = false)
    (h : AtPc listenSockFd pc s) :
    wp (watchedDescriptors listenSockFd) ((listenLoop port).code pc) (AtPc listenSockFd) s := by
  cases h with
  | @accept logFd s hopen hpaired =>
    have huninit : uninitConnection.Only (SysOp.Serving 0 0) := (only_perform trivial).map _
    simp only [listenLoop, listenCode]
    rw [wp_bind]
    refine wp_mono (wp_serving huninit ⟨hopen, none, hpaired⟩) ?_
    rintro connection _ rfl
    rw [wp_bind]
    refine wp_mono (wp_tcpAccept_opened hopen hpaired connection) ?_
    rintro ⟨r, connection⟩ _ ⟨hnew, rfl⟩
    refine .serve (List.mem_cons_of_mem _ hopen) (fun heq => hnew ?_) hpaired.accepted
    exact heq ▸ hopen
  | @serve logFd connection s hopen hne hpaired =>
    have hlistening : Listening listenSockFd s := ⟨hopen, _, hpaired⟩
    simp only [listenLoop, listenCode]
    rw [wp_bind]
    refine wp_mono (wp_serving (serveMessage_only connection logFd) hlistening) ?_
    rintro action s rfl
    cases action with
    | none => exact .serve hopen hne hpaired
    | some action =>
      dsimp only
      rw [wp_bind]
      refine ⟨⟨hlistening, trivial⟩, fun r s' hr => ?_⟩
      obtain ⟨-, rfl⟩ := hr
      have hopen' : listenSockFd ∈ (s.close connection.sockFd).opened := by
        simp [Descriptors.close, hopen, hne.symm]
      cases action with
      | CONTINUE => exact .accept hopen' hpaired.closed
      | QUIT => exact .closing hopen' hpaired.closed
  | closing => cases hgo

/-- In every run of the loop in which each `accept` and each `getsockname` succeeds and reports an
address of the expected length, the listening socket stays open, a connection is served on the
descriptor that has just been accepted, and each accepted descriptor is closed exactly once, before
the next one is accepted, and no other descriptor is closed. -/
theorem listenLoop_disciplined (port : Int32) {logFd : Fd} {opened : List Fd}
    (hopen : listenSockFd ∈ opened) {c : Sys ListenPc × Descriptors}
    (hreach : (listenLoop port).Reach (descriptorEnv Accepting)
      (.ret (.accept listenSockFd logFd), ⟨opened, []⟩) c) : Disciplined listenSockFd c := by
  have hreach := Env.reach_watch (I := Listening listenSockFd) hreach
  have hstart : AtPc listenSockFd (.accept listenSockFd logFd) ⟨opened, []⟩ := .accept hopen .start
  have hwp := hreach.wp_of_invariant (J := AtPc listenSockFd)
    (fun pc s hgo h => wp_listenLoop port hgo h) hstart
  have hlistening := Env.watch_holds hwp fun pc s => AtPc.listening
  obtain ⟨p, s⟩ := c
  refine ⟨hlistening.1, hlistening.2, ?_, ?_, ?_⟩
  · rintro listenSockFd' logFd' rfl
    cases hwp with
    | accept _ hpaired => exact hpaired
  · rintro listenSockFd' logFd' connection rfl
    cases hwp with
    | serve _ _ hpaired => exact hpaired
  · rintro listenSockFd' logFd' rfl
    cases hwp with
    | closing _ hpaired => exact hpaired

end Discipline

section Failure

variable {ok : (op : SysOp) → op.Result → Prop}

/-- A listener comes to serve what `tcp_accept` leaves in its connection. -/
theorem reach_serving (hok : ok (.indeterminate 16) ⟨List.replicate 16 0, rfl⟩)
    {r : Except Errno Unit × Connection} {s : Descriptors}
    (h : Exec (descriptorEnv ok) (tcpAccept 3 ⟨0, 0, 0, 0, 0⟩) ⟨[3, 4], []⟩ r s) :
    (listenLoop 12345).Reach (descriptorEnv ok) (.ret (.accept 3 4), ⟨[3, 4], []⟩)
      (.ret (.serve 3 4 r.2), s) := by
  have hmemory : (descriptorEnv ok).act ⟨[3, 4], []⟩ (.indeterminate 16)
      ⟨List.replicate 16 0, rfl⟩ ⟨[3, 4], []⟩ := ⟨hok, rfl⟩
  have huninit : Exec (descriptorEnv ok) uninitConnection ⟨[3, 4], []⟩ ⟨0, 0, 0, 0, 0⟩
      ⟨[3, 4], []⟩ := (Exec.perform hmemory).map
  exact Process.Reach.of_round rfl (huninit.bind (h.bind (.ret _ _)))

/-- A listener accepts a connection and serves it. -/
theorem listenLoop_disciplined_serves : ∃ c, (listenLoop 12345).Reach
    (descriptorEnv Accepting) (.ret (.accept 3 4), ⟨[3, 4], []⟩) c ∧
    c.1 = .ret (.serve 3 4 ⟨5, 0, 0, 0, 0⟩) ∧ Disciplined 3 c := by
  have haccept : (descriptorEnv Accepting).act ⟨[3, 4], []⟩ (.accept 3)
      (.ok (5, ⟨0, 0⟩, sockAddrLen)) ⟨[5, 3, 4], [.accepted 5]⟩ :=
    ⟨⟨5, ⟨0, 0⟩, rfl⟩, by decide, rfl⟩
  have hname : (descriptorEnv Accepting).act ⟨[5, 3, 4], [.accepted 5]⟩ (.getsockname 5)
      (.ok (⟨0, 0⟩, sockAddrLen)) ⟨[5, 3, 4], [.accepted 5]⟩ := ⟨⟨⟨0, 0⟩, rfl⟩, rfl⟩
  have htcp : Exec (descriptorEnv Accepting) (tcpAccept 3 ⟨0, 0, 0, 0, 0⟩) ⟨[3, 4], []⟩
      (.ok (), ⟨5, 0, 0, 0, 0⟩) ⟨[5, 3, 4], [.accepted 5]⟩ := by
    refine (Exec.perform haccept).bind ?_
    simp only [sockAddrLen, ne_eq, not_true_eq_false, if_false]
    exact (Exec.perform hname).bind (.ret _ _)
  have hreach := reach_serving trivial htcp
  exact ⟨_, hreach, rfl, listenLoop_disciplined 12345 (by decide) hreach⟩

/-- Where `getsockname` fails, the listener closes its listening socket, and serves a connection on
a descriptor that has not been accepted. -/
theorem listenLoop_closes_listening : ∃ c, (listenLoop 12345).Reach (descriptorEnv fun _ _ => True)
    (.ret (.accept 3 4), ⟨[3, 4], []⟩) c ∧ c.1 = .ret (.serve 3 4 ⟨0, 0, 0, 0, 0⟩) ∧
    c.2.calls = [.closed 3, .accepted 5] ∧ ¬Disciplined 3 c := by
  have haccept : (descriptorEnv fun _ _ => True).act ⟨[3, 4], []⟩ (.accept 3)
      (.ok (5, ⟨0, 0⟩, sockAddrLen)) ⟨[5, 3, 4], [.accepted 5]⟩ := ⟨trivial, by decide, rfl⟩
  have hname : (descriptorEnv fun _ _ => True).act ⟨[5, 3, 4], [.accepted 5]⟩ (.getsockname 5)
      (.error 107) ⟨[5, 3, 4], [.accepted 5]⟩ := ⟨trivial, rfl⟩
  have hclose : (descriptorEnv fun _ _ => True).act ⟨[5, 3, 4], [.accepted 5]⟩ (.close 3) true
      ⟨[5, 4], [.closed 3, .accepted 5]⟩ := ⟨trivial, rfl⟩
  have htcp : Exec (descriptorEnv fun _ _ => True) (tcpAccept 3 ⟨0, 0, 0, 0, 0⟩) ⟨[3, 4], []⟩
      (.error 107, ⟨0, 0, 0, 0, 0⟩) ⟨[5, 4], [.closed 3, .accepted 5]⟩ := by
    refine (Exec.perform haccept).bind ?_
    simp only [sockAddrLen, ne_eq, not_true_eq_false, if_false]
    exact (Exec.perform hname).bind ((Exec.perform hclose).bind (.ret _ _))
  refine ⟨_, reach_serving trivial htcp, rfl, rfl, fun h => ?_⟩
  have hlistening := h.listening
  simp at hlistening

end Failure

end SoftwareDynamics.Network

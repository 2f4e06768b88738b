import SoftwareDynamics.Network.Socket
import Mathlib.Algebra.Ring.Int.Defs

/-! How `tcp_connect` ends for every outcome of the calls that it makes.  It opens one descriptor,
which a connection takes over and a failure should close again. -/

namespace SoftwareDynamics.Network

open ProofKit Prog

section Model

/-- The outcomes of the calls that `tcp_connect` makes, and what was on the stack in the place of
the address. -/
structure Outcomes where
  socket : Except Errno Fd
  inetPton : Except Errno (Option UInt32)
  stack : Octets 4
  connect : Except Errno Unit
  getsockname : Except Errno (SockAddrIn × Nat)
  close : Bool

def Outcomes.answer (o : Outcomes) : (op : SysOp) → Option op.Result
  | .socket => some o.socket
  | .inetPton _ => some o.inetPton
  | .indeterminate n => some (.fit n o.stack.1)
  | .connect _ _ => some o.connect
  | .getsockname _ => some o.getsockname
  | .close _ => some o.close
  | _ => none

/-- The descriptors that have been opened and not closed again, and what has been connected to
where. -/
structure Sockets where
  opened : List Fd
  peers : List (Fd × SockAddrIn)

def Sockets.after (s : Sockets) : (op : SysOp) → op.Result → Sockets
  | .socket, .ok fd => { s with opened := fd :: s.opened }
  | .close fd, _ => { s with opened := s.opened.filter (· ≠ fd) }
  | .connect fd addr, .ok () => { s with peers := (fd, addr) :: s.peers }
  | _, _ => s

/-- Each call has the given outcome. -/
def outcomesEnv (o : Outcomes) : Env SysOp SysOp.Result Sockets where
  allows _ op := (o.answer op).isSome
  act s op r s' := o.answer op = some r ∧ s' = s.after op r

/-- The error that the first step to fail leaves in `errno`. -/
def Outcomes.failure (o : Outcomes) : Option Errno :=
  match o.socket, o.inetPton, o.connect, o.getsockname with
  | .error err, _, _, _ => some err
  | .ok _, .error err, _, _ => some err
  | .ok _, .ok _, .error err, _ => some err
  | .ok _, .ok _, .ok _, .error err => some err
  | .ok _, .ok _, .ok _, .ok (_, addrLen) => if addrLen = sockAddrLen then none else some ENOANO

/-- The `int` is the number of this port. -/
def IsPort (serverPort : Int32) (port : UInt16) : Prop := (port.toNat : Int) = serverPort.toInt

/-- What `htons` takes of an `int`. -/
def lowPort (serverPort : Int32) : UInt16 := serverPort.toUInt32.toUInt16

/-- A connection is made only to the address that the string stands for, and at the port that was
asked for.  A failure leaves no descriptor open, and the error of the step that failed.  As its
result has no connection, `*out_conn` is then left as it was. -/
def EndsCleanly (o : Outcomes) (serverPort : Int32) (r : Except Errno Connection)
    (s : Sockets) : Prop :=
  match r with
  | .ok connection => ∃ sinAddr port, o.inetPton = .ok (some sinAddr) ∧ IsPort serverPort port ∧
      s.peers = [(connection.sockFd, ⟨sinAddr, htons port⟩)]
  | .error err => s.opened = [] ∧ o.failure = some err

/-- `tcp_connect` ends, and however it does, it ends cleanly. -/
def ConnectsCleanly (o : Outcomes) (serverAddrStr : CString) (serverPort : Int32) : Prop :=
  (∃ r s, Exec (outcomesEnv o) (tcpConnect serverAddrStr (lowPort serverPort)) ⟨[], []⟩ r s) ∧
  ∀ r s, Exec (outcomesEnv o) (tcpConnect serverAddrStr (lowPort serverPort)) ⟨[], []⟩ r s →
    EndsCleanly o serverPort r s

/-- All calls succeed, except that the string is no address, that an address is reported of another
length, or that the port is not one. -/
def Outcomes.Slip (o : Outcomes) (serverPort : Int32) : Prop :=
  ∃ fd parsed addr addrLen, o.socket = .ok fd ∧ o.inetPton = .ok parsed ∧ o.connect = .ok () ∧
    o.getsockname = .ok (addr, addrLen) ∧
    (parsed = none ∨ addrLen ≠ sockAddrLen ∨ ¬(0 ≤ serverPort.toInt ∧ serverPort.toInt < 2 ^ 16))

end Model

section Proof

variable {o : Outcomes} {serverAddrStr : CString} {serverPort : Int32} {s : Sockets}

/-- An `int` that is a port is the one that `htons` takes of it. -/
theorem isPort_lowPort (h : 0 ≤ serverPort.toInt ∧ serverPort.toInt < 2 ^ 16) :
    IsPort serverPort (lowPort serverPort) := by
  have hnat : (lowPort serverPort).toNat = serverPort.toBitVec.toNat % 2 ^ 16 :=
    UInt32.toNat_toUInt16 _
  have hint : serverPort.toInt = if 2 * serverPort.toBitVec.toNat < 2 ^ 32 then
      (serverPort.toBitVec.toNat : Int) else serverPort.toBitVec.toNat - (2 ^ 32 : Nat) :=
    BitVec.toInt_eq_toNat_cond serverPort.toBitVec
  have hlt := serverPort.toBitVec.isLt
  rw [IsPort, hnat]
  split at hint <;> omega

theorem IsPort.fits {port : UInt16} (h : IsPort serverPort port) :
    0 ≤ serverPort.toInt ∧ serverPort.toInt < 2 ^ 16 := by
  have hlt := port.toNat_lt
  unfold IsPort at h
  omega

/-- A call has one outcome, which is the given one. -/
theorem wp_outcome {op : SysOp} {v : op.Result} {Q : op.Result → Sockets → Prop}
    (h : o.answer op = some v) (hQ : Q v (s.after op v)) : wp (outcomesEnv o) (sys op) Q s := by
  refine ⟨Option.isSome_iff_exists.mpr ⟨v, h⟩, ?_⟩
  rintro r s' ⟨hr, rfl⟩
  obtain rfl : v = r := Option.some.inj (h.symm.trans hr)
  exact hQ

theorem outcomesEnv_total (o : Outcomes) : (outcomesEnv o).Total := by
  intro s op hallows
  obtain ⟨r, hr⟩ := Option.isSome_iff_exists.mp hallows
  exact ⟨r, _, hr, rfl⟩

/-- A call that fails makes no slip, and the socket is closed. -/
theorem wp_close_clean {fd : Fd} {err : Errno} {peers : List (Fd × SockAddrIn)}
    (hfailure : o.failure = some err) (hslip : ¬o.Slip serverPort) :
    wp (outcomesEnv o) (sys (.close fd))
      (fun _ s => EndsCleanly o serverPort (.error err) s ↔ ¬o.Slip serverPort) ⟨[fd], peers⟩ :=
  wp_outcome rfl ⟨fun _ => hslip, fun _ => ⟨by simp [Sockets.after], hfailure⟩⟩

/-- However `tcp_connect` ends, it ends cleanly unless there has been a slip. -/
theorem wp_tcpConnect_clean :
    wp (outcomesEnv o) (tcpConnect serverAddrStr (lowPort serverPort))
      (fun r s => EndsCleanly o serverPort r s ↔ ¬o.Slip serverPort) ⟨[], []⟩ := by
  refine wp_tcpConnect (fun fd s => o.socket = .ok fd ∧ s = ⟨[fd], []⟩)
    (fun fd sinAddr s => o.socket = .ok fd ∧ s = ⟨[fd], []⟩ ∧
      ∃ parsed, o.inetPton = .ok parsed ∧ (parsed = none ∨ parsed = some sinAddr))
    (fun fd sinAddr s => o.socket = .ok fd ∧ o.connect = .ok () ∧
      s = ⟨[fd], [(fd, ⟨sinAddr, htons (lowPort serverPort)⟩)]⟩ ∧
      ∃ parsed, o.inetPton = .ok parsed ∧ (parsed = none ∨ parsed = some sinAddr))
    (wp_outcome rfl ?_) ?_ ?_ ?_
  · cases hsocket : o.socket with
    | error err =>
      refine ⟨fun _ ⟨_, _, _, _, hok, _⟩ => ?_, fun _ => ⟨rfl, by simp [Outcomes.failure, hsocket]⟩⟩
      cases hsocket.symm.trans hok
    | ok fd => exact ⟨rfl, rfl⟩
  · rintro fd _ ⟨hsocket, rfl⟩
    refine wp_outcome rfl ?_
    cases hparsed : o.inetPton with
    | error err =>
      refine wp_close_clean (by simp [Outcomes.failure, hsocket, hparsed])
        fun ⟨_, _, _, _, _, hok, _⟩ => ?_
      cases hparsed.symm.trans hok
    | ok parsed =>
      cases parsed with
      | none => exact wp_outcome rfl ⟨hsocket, rfl, _, rfl, .inl rfl⟩
      | some sinAddr => exact ⟨hsocket, rfl, _, rfl, .inr rfl⟩
  · rintro fd sinAddr _ ⟨hsocket, rfl, parsed, hparsed, haddr⟩
    refine wp_outcome rfl ?_
    cases hconnect : o.connect with
    | error err =>
      refine wp_close_clean (by simp [Outcomes.failure, hsocket, hparsed, hconnect])
        fun ⟨_, _, _, _, _, _, hok, _⟩ => ?_
      cases hconnect.symm.trans hok
    | ok _ => exact ⟨hsocket, rfl, rfl, parsed, hparsed, haddr⟩
  · rintro fd sinAddr _ ⟨hsocket, hconnect, rfl, parsed, hparsed, haddr⟩
    refine wp_outcome rfl ?_
    cases hname : o.getsockname with
    | error err =>
      refine wp_close_clean (by simp [Outcomes.failure, hsocket, hparsed, hconnect, hname])
        fun ⟨_, _, _, _, _, _, _, hok, _⟩ => ?_
      cases hname.symm.trans hok
    | ok name =>
      obtain ⟨addr, addrLen⟩ := name
      by_cases hlen : addrLen = sockAddrLen
      · rw [onResult, if_neg (not_not_intro hlen)]
        constructor
        · rintro ⟨sinAddr', port, haddr', hport, -⟩ ⟨_, parsed', _, len', -, h, -, hname', hbad⟩
          obtain rfl : some sinAddr' = parsed' := Except.ok.inj (haddr'.symm.trans h)
          obtain rfl : addrLen = len' :=
            (Prod.mk.inj (Except.ok.inj (hname.symm.trans hname'))).2
          rcases hbad with h | h | h
          · cases h
          · exact h hlen
          · exact h hport.fits
        · intro hslip
          have hgood := fun hbad =>
            hslip ⟨fd, parsed, addr, addrLen, hsocket, hparsed, hconnect, hname, hbad⟩
          have hsome := haddr.resolve_left fun hnone => hgood (.inl hnone)
          have hport := not_not.mp fun hbad => hgood (.inr (.inr hbad))
          exact ⟨sinAddr, lowPort serverPort, hsome ▸ hparsed, isPort_lowPort hport, rfl⟩
      · rw [onResult, if_pos hlen]
        exact iff_of_false (fun h => by cases h.1) (not_not_intro
          ⟨fd, parsed, addr, addrLen, hsocket, hparsed, hconnect, hname, .inr (.inl hlen)⟩)

theorem Outcomes.Slip.not_connectsCleanly (h : o.Slip serverPort) :
    ¬ConnectsCleanly o serverAddrStr serverPort := by
  rintro ⟨⟨r, s, hexec⟩, hclean⟩
  exact (hexec.of_wp wp_tcpConnect_clean).mp (hclean r s hexec) h

/-- `tcp_connect` ends cleanly except where all calls succeed though the string is no address, the
address that is reported has another length, or the port is not one. -/
theorem connectsCleanly_iff (o : Outcomes) (serverAddrStr : CString) (serverPort : Int32) :
    ConnectsCleanly o serverAddrStr serverPort ↔ ¬o.Slip serverPort := by
  refine ⟨fun hclean hslip => hslip.not_connectsCleanly hclean, fun hslip => ?_⟩
  have hwp := @wp_tcpConnect_clean o serverAddrStr serverPort
  obtain ⟨r, s, hexec, -⟩ := hwp.exists_exec (outcomesEnv_total o)
  exact ⟨⟨r, s, hexec⟩, fun r s hexec => (hexec.of_wp hwp).mpr hslip⟩

/-- A host name is no address, and what was on the stack is connected to. -/
theorem not_connectsCleanly_localhost :
    ¬ConnectsCleanly
      ⟨.ok 3, .ok none, ⟨[10, 0, 0, 9], rfl⟩, .ok (), .ok (⟨0, 0⟩, sockAddrLen), true⟩
      ⟨ascii "localhost", by decide⟩ 12345 :=
  Outcomes.Slip.not_connectsCleanly
    ⟨3, none, ⟨0, 0⟩, sockAddrLen, rfl, rfl, rfl, rfl, .inl rfl⟩

end Proof

end SoftwareDynamics.Network

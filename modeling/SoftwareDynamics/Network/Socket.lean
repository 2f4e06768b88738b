import SoftwareDynamics.Network.Sys

/-! The connections of `network.cc`. -/

namespace SoftwareDynamics.Network

open ProofKit Prog

section Program

structure Connection where
  sockFd : Fd
  clientIp : UInt32
  serverIp : UInt32
  clientPort : UInt16
  serverPort : UInt16
  deriving DecidableEq

/-- `htons` and `ntohs`, on a little-endian host. -/
def htons (x : UInt16) : UInt16 := (x <<< 8) ||| (x >>> 8)

/-- Opens a TCP connection to the server, or gives the error that is left in `errno`. -/
def tcpConnect (serverAddrStr : CString) (serverPort : UInt16) : Sys (Except Errno Connection) := do
  match ← sys .socket with
  | .error err => return .error err
  | .ok sockFd =>
    let sinPort := htons serverPort
    match ← sys (.inetPton serverAddrStr) with
    | .error err =>
      let _ ← sys (.close sockFd)
      return .error err
    | .ok parsed =>
      -- A string that is no address leaves `sin_addr` as it was, which is not initialized.
      let sinAddr ← match parsed with
        | some sinAddr => pure sinAddr
        | none => (fun bs : Octets 4 => UInt32.ofNat (leNat bs.1)) <$> sys (.indeterminate 4)
      let serverAddr : SockAddrIn := ⟨sinAddr, sinPort⟩
      match ← sys (.connect sockFd serverAddr) with
      | .error err =>
        let _ ← sys (.close sockFd)
        return .error err
      | .ok () =>
        match ← sys (.getsockname sockFd) with
        | .error err =>
          let _ ← sys (.close sockFd)
          return .error err
        | .ok (clientAddr, addrLen) =>
          if addrLen ≠ sockAddrLen then return .error ENOANO
          return .ok {
            sockFd
            serverIp := serverAddr.sinAddr
            serverPort := serverAddr.sinPort
            clientIp := clientAddr.sinAddr
            clientPort := clientAddr.sinPort }

/-- Opens a socket that listens on a port. -/
def tcpListen (port : UInt16) (backlog : Int32) : Sys (Except Errno Fd) := do
  match ← sys .socket with
  | .error err => return .error err
  | .ok sockFd =>
    match ← sys (.bind sockFd (htons port)) with
    | .error err =>
      let _ ← sys (.close sockFd)
      return .error err
    | .ok () =>
      match ← sys (.listen sockFd backlog) with
      | .error err =>
        let _ ← sys (.close sockFd)
        return .error err
      | .ok () => return .ok sockFd

/-- Accepts a connection.  On failure `connection` is left as it was. -/
def tcpAccept (sockFd : Fd) (connection : Connection) : Sys (Except Errno Unit × Connection) := do
  match ← sys (.accept sockFd) with
  | .error err => return (.error err, connection)
  | .ok (peerSockFd, clientAddr, addrLen) =>
    if addrLen ≠ sockAddrLen then return (.error ENOANO, connection)
    match ← sys (.getsockname peerSockFd) with
    | .error err =>
      let _ ← sys (.close sockFd)
      return (.error err, connection)
    | .ok (serverAddr, addrLen) =>
      if addrLen ≠ sockAddrLen then return (.error ENOANO, connection)
      return (.ok (), {
        sockFd := peerSockFd
        serverIp := serverAddr.sinAddr
        serverPort := serverAddr.sinPort
        clientIp := clientAddr.sinAddr
        clientPort := clientAddr.sinPort })

/-- Reads exactly `n` bytes, or fails at an error or at the end of the stream. -/
def readn (sockFd : Fd) (n : Nat) : Sys (Option (Octets n)) :=
  if hn : n = 0 then pure (some ⟨[], hn.symm⟩)
  else .call (.read sockFd n) fun
    | none => pure none
    | some ⟨[], _⟩ => pure none
    | some ⟨b :: bs, hle⟩ => do
      let some rest ← readn sockFd (n - (b :: bs).length) | pure none
      pure (some ⟨b :: bs ++ rest.1, by rw [List.length_append, rest.2]; omega⟩)
termination_by n
decreasing_by
  simp only [List.length_cons]
  omega

end Program

section Opening

variable {σ : Type} {env : Env SysOp SysOp.Result σ} {s : σ}

/-- What holds where a call has failed, and where it has not. -/
def onResult {α : Type} (failed : Errno → σ → Prop) (done : α → σ → Prop) :
    Except Errno α → σ → Prop
  | .error err => failed err
  | .ok a => done a

/-- After a call that has failed, the socket is closed, and the outcome of that ignored. -/
theorem wp_close_pure {α : Type} {fd : Fd} {a : α} {Q : α → σ → Prop}
    (h : wp env (sys (.close fd)) (fun _ => Q a) s) :
    wp env (sys (.close fd) >>= fun _ => pure a) Q s := by
  rw [wp_bind]
  exact h

/-- The assertions between the calls of `tcp_connect`: there is a socket, there is an address for
it, and it has been connected. -/
theorem wp_tcpConnect {serverAddrStr : CString} {serverPort : UInt16}
    {Q : Except Errno Connection → σ → Prop} (Made : Fd → σ → Prop)
    (Addressed Connected : Fd → UInt32 → σ → Prop)
    (socket : wp env (sys .socket) (onResult (fun err => Q (.error err)) Made) s)
    (inetPton : ∀ fd s, Made fd s → wp env (sys (.inetPton serverAddrStr))
      (onResult (fun err => wp env (sys (.close fd)) fun _ => Q (.error err)) fun parsed s =>
        match parsed with
        | some sinAddr => Addressed fd sinAddr s
        | none => wp env (sys (.indeterminate 4))
          (fun bs : Octets 4 => Addressed fd (UInt32.ofNat (leNat bs.1))) s) s)
    (connect : ∀ fd sinAddr s, Addressed fd sinAddr s →
      wp env (sys (.connect fd ⟨sinAddr, htons serverPort⟩))
        (onResult (fun err => wp env (sys (.close fd)) fun _ => Q (.error err)) fun _ =>
          Connected fd sinAddr) s)
    (getsockname : ∀ fd sinAddr s, Connected fd sinAddr s → wp env (sys (.getsockname fd))
      (onResult (fun err => wp env (sys (.close fd)) fun _ => Q (.error err)) fun name s =>
        if name.2 ≠ sockAddrLen then Q (.error ENOANO) s
        else Q (.ok ⟨fd, name.1.sinAddr, sinAddr, name.1.sinPort, htons serverPort⟩) s) s) :
    wp env (tcpConnect serverAddrStr serverPort) Q s := by
  rw [tcpConnect, wp_bind]
  refine wp_mono socket fun r s₁ hmade => ?_
  cases r with
  | error err => exact hmade
  | ok fd =>
    dsimp only
    rw [wp_bind]
    refine wp_mono (inetPton fd s₁ hmade) fun r s₂ hparsed => ?_
    cases r with
    | error err => exact wp_close_pure hparsed
    | ok parsed =>
      rcases parsed with _ | sinAddr
      on_goal 1 =>
        dsimp only
        rw [wp_bind, wp_map]
        refine wp_mono hparsed fun bs s₃ haddressed => ?_
      on_goal 2 =>
        have haddressed : Addressed fd sinAddr s₂ := hparsed
        dsimp only
        rw [pure_bind]
      all_goals
        rw [wp_bind]
        refine wp_mono (connect fd _ _ haddressed) fun r s₄ hconnected => ?_
        rcases r with err | _
        · exact wp_close_pure hconnected
        dsimp only
        rw [wp_bind]
        refine wp_mono (getsockname fd _ s₄ hconnected) fun r s₅ hdone => ?_
        rcases r with err | name
        · exact wp_close_pure hdone
        dsimp only [onResult] at hdone ⊢
        split_ifs at hdone ⊢ <;> exact hdone

/-- The assertions between the calls of `tcp_listen`: there is a socket, and it has been bound. -/
theorem wp_tcpListen {port : UInt16} {backlog : Int32} {Q : Except Errno Fd → σ → Prop}
    (Made Bound : Fd → σ → Prop)
    (socket : wp env (sys .socket) (onResult (fun err => Q (.error err)) Made) s)
    (bind : ∀ fd s, Made fd s → wp env (sys (.bind fd (htons port)))
      (onResult (fun err => wp env (sys (.close fd)) fun _ => Q (.error err)) fun _ => Bound fd) s)
    (listen : ∀ fd s, Bound fd s → wp env (sys (.listen fd backlog))
      (onResult (fun err => wp env (sys (.close fd)) fun _ => Q (.error err)) fun _ => Q (.ok fd))
        s) :
    wp env (tcpListen port backlog) Q s := by
  rw [tcpListen, wp_bind]
  refine wp_mono socket fun r s₁ hmade => ?_
  cases r with
  | error err => exact hmade
  | ok fd =>
    dsimp only
    rw [wp_bind]
    refine wp_mono (bind fd s₁ hmade) fun r s₂ hbound => ?_
    cases r with
    | error err => exact wp_close_pure hbound
    | ok _ =>
      dsimp only
      rw [wp_bind]
      refine wp_mono (listen fd s₂ hbound) fun r s₃ hdone => ?_
      cases r with
      | error err => exact wp_close_pure hdone
      | ok _ => exact hdone

/-- The assertion between the calls of `tcp_accept`: a connection has been accepted. -/
theorem wp_tcpAccept {sockFd : Fd} {connection : Connection}
    {Q : Except Errno Unit × Connection → σ → Prop} (Accepted : Fd → SockAddrIn → σ → Prop)
    (accept : wp env (sys (.accept sockFd))
      (onResult (fun err => Q (.error err, connection)) fun peer s =>
        if peer.2.2 ≠ sockAddrLen then Q (.error ENOANO, connection) s
        else Accepted peer.1 peer.2.1 s) s)
    (getsockname : ∀ fd addr s, Accepted fd addr s → wp env (sys (.getsockname fd))
      (onResult (fun err => wp env (sys (.close sockFd)) fun _ => Q (.error err, connection))
        fun name s => if name.2 ≠ sockAddrLen then Q (.error ENOANO, connection) s
        else Q (.ok (), ⟨fd, addr.sinAddr, name.1.sinAddr, addr.sinPort, name.1.sinPort⟩) s) s) :
    wp env (tcpAccept sockFd connection) Q s := by
  rw [tcpAccept, wp_bind]
  refine wp_mono accept fun r s₁ haccepted => ?_
  cases r with
  | error err => exact haccepted
  | ok peer =>
    dsimp only [onResult] at haccepted ⊢
    split_ifs at haccepted ⊢
    · exact haccepted
    · rw [wp_bind]
      refine wp_mono (getsockname _ _ s₁ haccepted) fun r s₂ hdone => ?_
      cases r with
      | error err => exact wp_close_pure hdone
      | ok name =>
        dsimp only [onResult] at hdone ⊢
        split_ifs at hdone ⊢ <;> exact hdone

end Opening

section Readn

variable {σ : Type} {env : Env SysOp SysOp.Result σ} {fd : Fd}

/-- The bytes that a `read` delivers: none if it fails or meets the end of the stream. -/
def delivered {count : Nat} (r : Option { bs : Bytes // bs.length ≤ count }) : Bytes :=
  r.elim [] Subtype.val

/-- `readn` keeps an invariant of the bytes it has got, which each `read` that delivers any bytes
keeps, and fails where a `read` does not deliver any. -/
theorem wp_readn {n : Nat} {Q : Option (Octets n) → σ → Prop} (I : Bytes → σ → Prop) {s : σ}
    (init : I [] s)
    (step : ∀ got k s, got.length + k = n → 0 < k → I got s → env.allows s (.read fd k) ∧
      ∀ r s', env.act s (.read fd k) r s' →
        (delivered r = [] → Q none s') ∧ (delivered r ≠ [] → I (got ++ delivered r) s'))
    (done : ∀ got (h : got.length = n) s, I got s → Q (some ⟨got, h⟩) s) :
    wp env (readn fd n) Q s := by
  suffices h : ∀ k got s (hk : got.length + k = n), I got s →
      wp env (readn fd k)
        (fun r s' => Q (r.map fun bs => ⟨got ++ bs.1, by simp [bs.2, hk]⟩) s') s by
    refine wp_mono (h n [] s (by simp) init) fun r s' hr => ?_
    cases r <;> exact hr
  intro k
  induction k using Nat.strongRecOn with
  | _ k ih =>
    intro got s hk hI
    rw [readn]
    split_ifs with hzero
    · subst hzero
      simpa using done got (by omega) s hI
    · obtain ⟨hallows, hact⟩ := step got k s hk (by omega) hI
      refine ⟨hallows, fun r s' hr => ?_⟩
      obtain ⟨hfail, hmore⟩ := hact r s' hr
      match r with
      | none => exact hfail rfl
      | some ⟨[], _⟩ => exact hfail rfl
      | some ⟨b :: bs, hle⟩ =>
        have hnext : I (got ++ b :: bs) s' := hmore (List.cons_ne_nil b bs)
        have hlen : bs.length + 1 ≤ k := hle
        simp only [wp_bind]
        have hrest := ih (k - (bs.length + 1)) (by omega) (got ++ b :: bs) s'
          (by simp only [List.length_append, List.length_cons]; omega) hnext
        refine wp_mono hrest fun rest s'' hrest => ?_
        cases rest with
        | none => exact hrest
        | some rest => simpa using hrest

/-- Where every `read` may deliver whatever it is asked for, `readn` may deliver any bytes. -/
theorem exec_readn {s : σ} (hread : ∀ count r, env.act s (.read fd count) r s) {n : Nat}
    (bs : Octets n) : Exec env (readn fd n) s (some bs) s := by
  obtain ⟨bs, rfl⟩ := bs
  cases bs with
  | nil =>
    rw [readn]
    exact .ret _ s
  | cons b bs =>
    rw [readn, dif_neg (by simp)]
    refine .call (hread _ (some ⟨b :: bs, Nat.le_refl _⟩)) ?_
    refine Exec.bind (a := some ⟨[], by simp⟩) (t := s) ?_ ?_
    · rw [readn, dif_pos (Nat.sub_self _)]
      exact .ret _ s
    · simp only [List.append_nil]
      exact .ret _ s

end Readn

end SoftwareDynamics.Network

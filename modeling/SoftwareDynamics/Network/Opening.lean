import SoftwareDynamics.Network.Net

/-! How a side opens its sockets: what `tcp_connect`, `tcp_listen` and `tcp_accept` do to it in any
environment in which their calls do to it what they should. -/

namespace SoftwareDynamics.Network

open ProofKit Prog

section Calls

/-- The calls of `tcp_connect`, each with what the side has become before it. -/
inductive Host.Connects (h : Host) : Host → SysOp → Prop
  | socket : Connects h h .socket
  | inetPton {fd : Fd} {s : CString} : h.files fd = none →
      Connects h (h.openFile fd .socket) (.inetPton s)
  | indeterminate {fd : Fd} {size : Nat} : h.files fd = none →
      Connects h (h.openFile fd .socket) (.indeterminate size)
  | connect {fd : Fd} {addr : SockAddrIn} : h.files fd = none →
      Connects h (h.openFile fd .socket) (.connect fd addr)
  | getsockname {fd : Fd} : h.files fd = none →
      Connects h ((h.openFile fd .socket).connect fd) (.getsockname fd)

/-- The calls of `tcp_listen`. -/
inductive Host.Listens (h : Host) : Host → SysOp → Prop
  | socket : Listens h h .socket
  | bind {fd : Fd} {port : UInt16} : h.files fd = none →
      Listens h (h.openFile fd .socket) (.bind fd port)
  | listen {fd : Fd} {backlog : Int32} : h.files fd = none →
      Listens h (h.openFile fd .socket) (.listen fd backlog)

/-- The calls of `tcp_accept`. -/
inductive Host.Accepts (h : Host) (fd : Fd) : Host → SysOp → Prop
  | accept : Accepts h fd h (.accept fd)
  | getsockname {peerFd : Fd} : h.files peerFd = none →
      Accepts h fd (h.connect peerFd) (.getsockname peerFd)

end Calls

section Rules

variable {σ : Type} {env : Env SysOp SysOp.Result σ} (view : σ → Host) (I : σ → Prop) {s : σ}

/-- `view` is the side in a state of the environment, and `I` is what else each call keeps. -/
theorem wp_connects {server : CString} {port : UInt16} {Q : Except Errno Connection → σ → Prop}
    (calls : ∀ s' op, (view s).Connects (view s') op → I s' →
      wp env (sys op) (fun r s'' => (view s').act op r (view s'') ∧ I s'') s')
    (hI : I s)
    (hQ : ∀ (connection : Connection) s', (view s).files connection.sockFd = none →
      view s' = ((view s).openFile connection.sockFd .socket).connect connection.sockFd → I s' →
      Q (.ok connection) s') :
    wp env (tcpConnect server port) Q s := by
  refine wp_tcpConnect
    (fun fd s' => (view s).files fd = none ∧ view s' = (view s).openFile fd .socket ∧ I s')
    (fun fd _ s' => (view s).files fd = none ∧ view s' = (view s).openFile fd .socket ∧ I s')
    (fun fd _ s' => (view s).files fd = none ∧
      view s' = ((view s).openFile fd .socket).connect fd ∧ I s') ?_ ?_ ?_ ?_
  · refine wp_mono (calls s _ .socket hI) fun r s' ⟨hact, hI'⟩ => ?_
    obtain ⟨fd, rfl, hfree, hview⟩ := Host.act_socket hact
    exact ⟨hfree, hview, hI'⟩
  · rintro fd s₁ ⟨hfree, hview, hI₁⟩
    refine wp_mono (calls s₁ _ (hview ▸ .inetPton hfree) hI₁) fun r s₂ ⟨hact, hI₂⟩ => ?_
    obtain ⟨parsed, rfl, hsame⟩ := Host.act_inetPton hact
    cases parsed with
    | some sinAddr => exact ⟨hfree, hsame.trans hview, hI₂⟩
    | none =>
      refine wp_mono (calls s₂ _ ((hsame.trans hview) ▸ .indeterminate hfree) hI₂)
        fun bs s₃ ⟨hact, hI₃⟩ => ?_
      exact ⟨hfree, (show view s₃ = view s₂ from hact).trans (hsame.trans hview), hI₃⟩
  · rintro fd sinAddr s₁ ⟨hfree, hview, hI₁⟩
    refine wp_mono (calls s₁ _ (hview ▸ .connect hfree) hI₁) fun r s₂ ⟨hact, hI₂⟩ => ?_
    obtain ⟨rfl, -, hconnect⟩ := Host.act_connect hact
    exact ⟨hfree, hview ▸ hconnect, hI₂⟩
  · rintro fd sinAddr s₁ ⟨hfree, hview, hI₁⟩
    refine wp_mono (calls s₁ _ (hview ▸ .getsockname hfree) hI₁) fun r s₂ ⟨hact, hI₂⟩ => ?_
    obtain ⟨addr, rfl, hsame⟩ := Host.act_getsockname hact
    rw [onResult, if_neg (not_not_intro rfl)]
    exact hQ _ s₂ hfree (hsame.trans hview) hI₂

theorem wp_listens {port : UInt16} {backlog : Int32} {Q : Except Errno Fd → σ → Prop}
    (calls : ∀ s' op, (view s).Listens (view s') op → I s' →
      wp env (sys op) (fun r s'' => (view s').act op r (view s'') ∧ I s'') s')
    (hI : I s)
    (hQ : ∀ fd s', (view s).files fd = none → view s' = (view s).openFile fd .socket → I s' →
      Q (.ok fd) s') :
    wp env (tcpListen port backlog) Q s := by
  refine wp_tcpListen
    (fun fd s' => (view s).files fd = none ∧ view s' = (view s).openFile fd .socket ∧ I s')
    (fun fd s' => (view s).files fd = none ∧ view s' = (view s).openFile fd .socket ∧ I s') ?_ ?_ ?_
  · refine wp_mono (calls s _ .socket hI) fun r s' ⟨hact, hI'⟩ => ?_
    obtain ⟨fd, rfl, hfree, hview⟩ := Host.act_socket hact
    exact ⟨hfree, hview, hI'⟩
  · rintro fd s₁ ⟨hfree, hview, hI₁⟩
    refine wp_mono (calls s₁ _ (hview ▸ .bind hfree) hI₁) fun r s₂ ⟨hact, hI₂⟩ => ?_
    obtain ⟨rfl, hsame⟩ := Host.act_bind hact
    exact ⟨hfree, hsame.trans hview, hI₂⟩
  · rintro fd s₁ ⟨hfree, hview, hI₁⟩
    refine wp_mono (calls s₁ _ (hview ▸ .listen hfree) hI₁) fun r s₂ ⟨hact, hI₂⟩ => ?_
    obtain ⟨rfl, hsame⟩ := Host.act_listen hact
    exact hQ fd s₂ hfree (hsame.trans hview) hI₂

theorem wp_accepts {fd : Fd} {connection : Connection}
    {Q : Except Errno Unit × Connection → σ → Prop}
    (calls : ∀ s' op, (view s).Accepts fd (view s') op → I s' →
      wp env (sys op) (fun r s'' => (view s').act op r (view s'') ∧ I s'') s')
    (hI : I s)
    (hQ : ∀ (connection : Connection) s', (view s).files connection.sockFd = none →
      view s' = (view s).connect connection.sockFd → I s' → Q (.ok (), connection) s') :
    wp env (tcpAccept fd connection) Q s := by
  refine wp_tcpAccept (fun peerFd _ s' => (view s).files peerFd = none ∧
    view s' = (view s).connect peerFd ∧ I s') ?_ ?_
  · refine wp_mono (calls s _ .accept hI) fun r s' ⟨hact, hI'⟩ => ?_
    obtain ⟨peerFd, addr, rfl, hfree, hview⟩ := Host.act_accept hact
    rw [onResult, if_neg (not_not_intro rfl)]
    exact ⟨hfree, hview, hI'⟩
  · rintro peerFd addr s₁ ⟨hfree, hview, hI₁⟩
    refine wp_mono (calls s₁ _ (hview ▸ .getsockname hfree) hI₁) fun r s₂ ⟨hact, hI₂⟩ => ?_
    obtain ⟨serverAddr, rfl, hsame⟩ := Host.act_getsockname hact
    rw [onResult, if_neg (not_not_intro rfl)]
    exact hQ _ s₂ hfree (hsame.trans hview) hI₂

end Rules

end SoftwareDynamics.Network

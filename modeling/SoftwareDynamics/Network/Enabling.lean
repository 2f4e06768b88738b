import SoftwareDynamics.Network.Correlation

/-! When an operation has a result in a net: what it needs of its own side, and what it waits for on
the other one. -/

namespace SoftwareDynamics.Network

open ProofKit Prog

section Growth

/-- A side on which more has happened. -/
structure Host.Grows (h h' : Host) : Prop where
  conns : h.conns ≤ h'.conns
  got : ∀ n, h.got n <+: h'.got n
  sent : ∀ n, h.sent n <+: h'.sent n
  closed : ∀ n, h.closed n → h'.closed n

variable {h h' h'' : Host} {op : SysOp} {r : op.Result}

theorem Host.Grows.refl (h : Host) : h.Grows h :=
  ⟨Nat.le_refl _, fun _ => List.prefix_refl _, fun _ => List.prefix_refl _, fun _ => id⟩

theorem Host.Grows.trans (hle : h.Grows h') (hle' : h'.Grows h'') : h.Grows h'' where
  conns := Nat.le_trans hle.conns hle'.conns
  got n := (hle.got n).trans (hle'.got n)
  sent n := (hle.sent n).trans (hle'.sent n)
  closed n hn := hle'.closed n (hle.closed n hn)

/-- All that an operation can do to its own side. -/
theorem Host.act_cases (hact : h.act op r h') :
    (∃ n chunk, h' = h.receive n chunk) ∨ (∃ n buf, h' = h.send n buf) ∨
    (∃ fd, h' = h.close fd) ∨ (∃ fd file, h' = h.openFile fd file) ∨ (∃ fd, h' = h.connect fd) ∨
    (∃ now, h' = h.look now) ∨ h' = h := by
  cases op with
  | read fd count =>
    rcases r with _ | chunk
    · exact hact.elim
    obtain ⟨n, -, hreceive⟩ := hact
    exact .inl ⟨n, chunk.1, hreceive⟩
  | write fd buf =>
    obtain ⟨-, ⟨-, hsame⟩ | ⟨n, -, hsend⟩⟩ := hact
    · simp [hsame]
    · exact .inr (.inl ⟨n, buf, hsend⟩)
  | close fd => exact .inr (.inr (.inl ⟨fd, hact.2.2⟩))
  | creat path =>
    rcases r with _ | fd
    · exact hact.elim
    · exact .inr (.inr (.inr (.inl ⟨fd, .log, hact.2⟩)))
  | socket =>
    rcases r with _ | fd
    · exact hact.elim
    · exact .inr (.inr (.inr (.inl ⟨fd, .socket, hact.2⟩)))
  | connect fd addr =>
    rcases r with _ | ⟨⟩
    · exact hact.elim
    · exact .inr (.inr (.inr (.inr (.inl ⟨fd, hact.2⟩))))
  | accept fd =>
    rcases r with _ | ⟨peerFd, addr, addrLen⟩
    · exact hact.elim
    · exact .inr (.inr (.inr (.inr (.inl ⟨peerFd, hact.2.2.2⟩))))
  | gettimeofday =>
    rcases r with _ | now
    · exact hact.elim
    · exact .inr (.inr (.inr (.inr (.inr (.inl ⟨now.usec, hact⟩)))))
  | bind fd port =>
    rcases r with _ | ⟨⟩
    · exact hact.elim
    · simp [show h' = h from hact.2]
  | listen fd backlog =>
    rcases r with _ | ⟨⟩
    · exact hact.elim
    · simp [show h' = h from hact.2]
  | inetPton src =>
    rcases r with _ | parsed
    · exact hact.elim
    · simp [show h' = h from hact]
  | getsockname fd =>
    rcases r with _ | ⟨addr, addrLen⟩
    · exact hact.elim
    · simp [show h' = h from hact.2]
  | malloc size => simp [show h' = h from hact.2]
  | indeterminate size => simp [show h' = h from hact]
  | emplace key value => simp [show h' = h from hact]
  | find key => simp [show h' = h from hact]

theorem Host.close_closed (h : Host) (fd : Fd) (n : Nat) :
    (h.close fd).closed n ↔ h.files fd = some (.connection n) ∨ h.closed n := by
  cases hfd : h.files fd with
  | none => simp [close, hfd]
  | some file =>
    cases file with
    | connection m =>
      by_cases hn : n = m
      · subst hn
        simp [close, hfd]
      · simp [close, hfd, hn, Ne.symm hn]
    | _ => simp [close, hfd]

theorem Host.close_files (h : Host) {fd fd' : Fd} (hne : fd' ≠ fd) :
    (h.close fd).files fd' = h.files fd' := by simp [close, hne]

theorem Host.act_grows (hact : h.act op r h') : h.Grows h' := by
  rcases Host.act_cases hact with ⟨m, chunk, rfl⟩ | ⟨m, buf, rfl⟩ | ⟨fd, rfl⟩ | ⟨fd, file, rfl⟩ |
    ⟨fd, rfl⟩ | ⟨now, rfl⟩ | rfl
  · refine ⟨Nat.le_refl _, fun n => ?_, fun _ => List.prefix_refl _, fun _ => id⟩
    by_cases hn : n = m
    · subst hn
      simp [receive]
    · simp [receive, hn]
  · refine ⟨Nat.le_refl _, fun _ => List.prefix_refl _, fun n => ?_, fun _ => id⟩
    by_cases hn : n = m
    · subst hn
      simp [send]
    · simp [send, hn]
  · exact ⟨Nat.le_refl _, fun _ => List.prefix_refl _, fun _ => List.prefix_refl _,
      fun n hn => (h.close_closed fd n).mpr (.inr hn)⟩
  · exact ⟨Nat.le_refl _, fun _ => List.prefix_refl _, fun _ => List.prefix_refl _, fun _ => id⟩
  · exact ⟨Nat.le_succ _, fun _ => List.prefix_refl _, fun _ => List.prefix_refl _, fun _ => id⟩
  · exact ⟨Nat.le_refl _, fun _ => List.prefix_refl _, fun _ => List.prefix_refl _, fun _ => id⟩
  · exact .refl _

end Growth

section Descriptors

/-- No other descriptors than these are open. -/
def Host.Opens (h : Host) (fds : List Fd) : Prop := ∀ fd, fd ∉ fds → h.files fd = none

variable {h : Host} {fds : List Fd}

/-- A side that has few open descriptors can open another one. -/
theorem Host.Opens.exists_free (ho : h.Opens fds) (hlength : fds.length < 4) :
    ∃ fd, h.files fd = none := by
  have hnodup : ([0, 1, 2, 3] : List Fd).Nodup := by decide
  by_contra hall
  have hsubset : ([0, 1, 2, 3] : List Fd) ⊆ fds := fun fd _ => by
    by_contra hfd
    exact hall ⟨fd, ho fd hfd⟩
  have hle := (hnodup.subperm hsubset).length_le
  simp only [List.length_cons, List.length_nil] at hle
  omega

theorem Host.Opens.openFile (ho : h.Opens fds) (fd : Fd) (file : File) :
    (h.openFile fd file).Opens (fd :: fds) := by
  intro fd' hfd'
  obtain ⟨hne, hfd'⟩ := List.ne_and_not_mem_of_not_mem_cons hfd'
  simpa [Host.openFile, hne] using ho fd' hfd'

theorem Host.Opens.connect (ho : h.Opens fds) (fd : Fd) : (h.connect fd).Opens (fd :: fds) :=
  ho.openFile fd (.connection h.conns)

theorem Host.Opens.of_subset {fds' : List Fd} (ho : h.Opens fds) (hsubset : fds ⊆ fds') :
    h.Opens fds' := fun fd hfd => ho fd fun hmem => hfd (hsubset hmem)

theorem Host.Opens.close {fd : Fd} (ho : h.Opens (fd :: fds)) : (h.close fd).Opens fds := by
  intro fd' hfd'
  by_cases hne : fd' = fd
  · simp [Host.close, hne]
  · simpa [Host.close, hne] using ho fd' (List.not_mem_cons_of_ne_of_not_mem hne hfd')

end Descriptors

section Results

/-- An operation that a side may perform, as far as its own descriptors are concerned. -/
def Host.Enables (h : Host) : SysOp → Prop
  | .read fd count => 0 < count ∧ ∃ n, h.files fd = some (.connection n)
  | .write fd _ => h.files fd = some .log ∨ ∃ n, h.files fd = some (.connection n)
  | .close fd => (h.files fd).isSome
  | .creat _ | .socket => ∃ fd, h.files fd = none
  | .bind fd _ | .listen fd _ | .connect fd _ => h.files fd = some .socket
  | .accept fd => h.files fd = some .socket ∧ ∃ peerFd, h.files peerFd = none
  | _ => True

theorem Host.enables_close {h : Host} {fd : Fd} {file : File} (hfd : h.files fd = some file) :
    h.Enables (.close fd) := Option.isSome_iff_exists.mpr ⟨file, hfd⟩

/-- What an operation waits for has happened on the other side: there are more bytes, or there will
be no more of them, or there is a socket, or another connection. -/
def Host.Unblocks (peer h : Host) : SysOp → Prop
  | .read fd _ => ∀ n, h.files fd = some (.connection n) → peer.closed n ∨ h.got n ≠ peer.sent n
  | .connect _ _ => ∃ fd, peer.files fd = some .socket
  | .accept _ => h.conns < peer.conns
  | _ => True

variable {s : Net} {side : Side} {op : SysOp}

/-- What a side may do, and the store of the server with it, may happen in the net. -/
theorem netEnv_act_of_host {r : op.Result} {h : Host} {keystore : Keystore}
    (hact : (s.hosts side).act op r h) (hgets : (s.hosts side).Gets (s.hosts side.other) op r)
    (hstore : StoreOps.alone.act s.keystore op r keystore) :
    ∃ r s', (netEnv side).act s op r s' := by
  cases side with
  | client => exact ⟨r, _, h, s.keystore, hact, hgets, rfl, rfl⟩
  | server => exact ⟨r, _, h, keystore, hact, hgets, hstore, rfl⟩

/-- An operation has a result as soon as what it waits for has happened. -/
theorem netEnv_exists_act (side : Side) (hflows : s.Flows)
    (henables : (s.hosts side).Enables op)
    (hunblocks : (s.hosts side.other).Unblocks (s.hosts side) op) :
    ∃ r s', (netEnv side).act s op r s' := by
  cases op with
  | read fd count =>
    obtain ⟨hcount, n, hn⟩ := henables
    have arrives (chunk : { bs : Bytes // bs.length ≤ count })
        (hchunk : if chunk.1 = [] then (s.hosts side.other).closed n ∧
            (s.hosts side).got n = (s.hosts side.other).sent n
          else (s.hosts side).got n ++ chunk.1 <+: (s.hosts side.other).sent n) :
        ∃ r s', (netEnv side).act s (.read fd count) r s' := by
      refine netEnv_act_of_host (r := some chunk) ⟨n, hn, rfl⟩ (fun m hm => ?_) rfl
      rw [hn] at hm
      cases hm
      exact hchunk
    by_cases hall : (s.hosts side).got n = (s.hosts side.other).sent n
    · refine arrives ⟨[], Nat.zero_le _⟩ ?_
      rw [if_pos rfl]
      exact ⟨(hunblocks n hn).resolve_right (not_not_intro hall), hall⟩
    · obtain ⟨rest, hrest⟩ := hflows side n
      cases rest with
      | nil => exact absurd ((List.append_nil _).symm.trans hrest) hall
      | cons b rest =>
        refine arrives ⟨[b], hcount⟩ ?_
        rw [if_neg (List.cons_ne_nil b []), ← hrest]
        exact (List.prefix_append_right_inj _).mpr ⟨rest, rfl⟩
  | write fd buf =>
    rcases henables with hlog | ⟨n, hn⟩
    · exact netEnv_act_of_host ⟨rfl, .inl ⟨hlog, rfl⟩⟩ trivial rfl
    · exact netEnv_act_of_host ⟨rfl, .inr ⟨n, hn, rfl⟩⟩ trivial rfl
  | close fd => exact netEnv_act_of_host ⟨rfl, henables, rfl⟩ trivial rfl
  | creat path =>
    obtain ⟨fd, hfree⟩ := henables
    exact netEnv_act_of_host (r := some fd) ⟨hfree, rfl⟩ trivial rfl
  | socket =>
    obtain ⟨fd, hfree⟩ := henables
    exact netEnv_act_of_host (r := .ok fd) ⟨hfree, rfl⟩ trivial rfl
  | bind fd port => exact netEnv_act_of_host (r := .ok ()) ⟨henables, rfl⟩ trivial rfl
  | listen fd backlog => exact netEnv_act_of_host (r := .ok ()) ⟨henables, rfl⟩ trivial rfl
  | connect fd addr => exact netEnv_act_of_host (r := .ok ()) ⟨henables, rfl⟩ hunblocks rfl
  | accept fd =>
    obtain ⟨hsocket, peerFd, hfree⟩ := henables
    exact netEnv_act_of_host (r := .ok (peerFd, ⟨0, 0⟩, sockAddrLen)) ⟨rfl, hsocket, hfree, rfl⟩
      hunblocks rfl
  | inetPton src => exact netEnv_act_of_host (r := .ok none) rfl trivial rfl
  | getsockname fd =>
    exact netEnv_act_of_host (r := .ok (⟨0, 0⟩, sockAddrLen)) ⟨rfl, rfl⟩ trivial rfl
  | gettimeofday => exact netEnv_act_of_host (r := some ⟨0, 0⟩) rfl trivial rfl
  | malloc size => exact netEnv_act_of_host (r := true) ⟨rfl, rfl⟩ trivial rfl
  | indeterminate size => exact netEnv_act_of_host (r := Octets.fit size []) rfl trivial rfl
  | emplace key value => exact netEnv_act_of_host (r := ()) rfl trivial rfl
  | find key =>
    exact netEnv_act_of_host (r := s.keystore.lookup key) rfl trivial ⟨rfl, rfl⟩

end Results

end SoftwareDynamics.Network

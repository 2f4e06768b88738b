import SoftwareDynamics.Network.BothLogs
import SoftwareDynamics.Network.Calls

/-! The files that the programs create, and what they write to them while they send and receive
messages.  The descriptor of a file is not negative. -/

namespace SoftwareDynamics.Network

open ProofKit Prog

section Model

/-- The bytes of a log file that has these records. -/
def logFile (ms : List LogMessage) : Bytes := ms.flatMap LogMessage.toBytes

theorem logFile_append (ms ms' : List LogMessage) :
    logFile (ms ++ ms') = logFile ms ++ logFile ms' := List.flatMap_append

/-- The files that a program has created: which of them each descriptor writes to, and what they
hold. -/
structure Disk where
  owner : Fd → Option Bytes
  file : Bytes → Option Bytes

namespace Disk

def empty : Disk := ⟨fun _ => none, fun _ => none⟩

/-- What an operation changes. -/
def note : (op : SysOp) → op.Result → Disk → Disk
  | .creat path, some fd, d =>
    if 0 ≤ fd then
      ⟨Function.update d.owner fd (some path), Function.update d.file path (some [])⟩
    else d
  | .write fd buf, some n, d =>
    match d.owner fd with
    | some path =>
      { d with file := Function.update d.file path ((d.file path).map (· ++ buf.take n)) }
    | none => d
  | .close fd, _, d => { d with owner := Function.update d.owner fd none }
  | _, _, d => d

/-- A file that is open, with what it holds, is all there is. -/
def opened (fd : Fd) (path bs : Bytes) : Disk :=
  if 0 ≤ fd then
    ⟨Function.update (fun _ => none) fd (some path),
      Function.update (fun _ => none) path (some bs)⟩
  else empty

variable {fd logFd : Fd} {path bs buf : Bytes}

theorem note_creat (fd : Fd) (path : Bytes) :
    note (.creat path) (some fd) empty = opened fd path [] := rfl

theorem note_write_self (n : Fin (buf.length + 1)) :
    note (.write logFd buf) (some n) (opened logFd path bs) =
      opened logFd path (bs ++ buf.take n) := by
  by_cases hfd : 0 ≤ logFd
  · simp [note, opened, hfd]
  · simp [note, opened, hfd, empty]

theorem note_write_of_ne (hne : fd ≠ logFd) (r : Option (Fin (buf.length + 1))) :
    note (.write fd buf) r (opened logFd path bs) = opened logFd path bs := by
  cases r with
  | none => rfl
  | some n => by_cases hfd : 0 ≤ logFd <;> simp [note, opened, hfd, hne, empty]

theorem note_close_of_ne (hne : fd ≠ logFd) (r : Bool) :
    note (.close fd) r (opened logFd path bs) = opened logFd path bs := by
  have hclose : Function.update (opened logFd path bs).owner fd none =
      (opened logFd path bs).owner := by
    apply Function.update_eq_self_iff.mpr
    by_cases hfd : 0 ≤ logFd <;> simp [opened, hfd, hne, empty]
  simp [note, hclose]

theorem file_opened (hfd : 0 ≤ logFd) : (opened logFd path bs).file path = some bs := by
  simp [opened, hfd]

theorem file_opened_of_neg (hfd : ¬0 ≤ logFd) : (opened logFd path bs).file path = none := by
  simp [opened, hfd, empty]

end Disk

end Model

section Endpoints

variable {κ : Type} {ops : StoreOps κ} {connection : Connection} {logFd : Fd}
  {I : Endpoint κ × Bytes → Prop} {e : Endpoint κ} {logged : Bytes}

/-- One end of a connection at which anything may arrive, with what it has logged, where an
invariant of both is watched. -/
def loggedEnd (connection : Connection) (logFd : Fd) (ops : StoreOps κ)
    (I : Endpoint κ × Bytes → Prop) : Env SysOp SysOp.Result (Endpoint κ × Bytes) :=
  ((endpointEnv connection.sockFd logFd ops anything).ghost (written logFd)).watch I

/-- A program that does not log does as it does where nothing is logged. -/
theorem wp_loggedEnd {α : Type} {p : Sys α} {Q : α → Endpoint κ → Prop}
    (hp : p.Only fun op => ∀ r bs, written logFd op r bs = bs)
    (h : wp (watched connection logFd ops fun e => I (e, logged)) p Q e) :
    wp (loggedEnd connection logFd ops I) p (fun a x => Q a x.1 ∧ x.2 = logged) (e, logged) :=
  Env.wp_watch_ghost hp h

theorem wp_loggedEnd_recvStamped {stamp : Frame → UInt64 → Frame}
    {Q : Option Frame → Endpoint κ → Prop}
    (h : wp (watched connection logFd ops fun e => I (e, logged)) (recvStamped connection stamp) Q
      e) :
    wp (loggedEnd connection logFd ops I) (recvStamped connection stamp)
      (fun r x => Q r x.1 ∧ x.2 = logged) (e, logged) := by
  refine wp_loggedEnd ((recvStamped_only connection stamp).mono fun op hop r bs => ?_) h
  cases op <;> first | rfl | exact hop.elim

theorem wp_loggedEnd_nowUsec {Q : Option UInt64 → Endpoint κ × Bytes → Prop} (hI : I (e, logged))
    (hQ : ∀ now, Q (some now) (e.look now, logged)) :
    wp (loggedEnd connection logFd ops I) nowUsec Q (e, logged) := by
  refine wp_mono (wp_loggedEnd (nowUsec_only fun _ _ => rfl)
    (wp_nowUsec (Q := fun r e' => ∃ now, r = some now ∧ e' = e.look now) hI
      fun now => ⟨now, rfl, rfl⟩)) ?_
  rintro _ ⟨_, _⟩ ⟨⟨now, rfl, rfl⟩, rfl⟩
  exact hQ now

theorem wp_loggedEnd_ilog2 {x : UInt32} {Q : UInt8 → Endpoint κ × Bytes → Prop}
    (hI : I (e, logged)) (hQ : ∀ y, Q y (e, logged)) :
    wp (loggedEnd connection logFd ops I) (ilog2 x) Q (e, logged) := by
  refine wp_mono (wp_loggedEnd (ilog2_only (fun _ _ _ => rfl) x)
    (wp_ilog2 (Q := fun _ e' => e' = e) hI fun _ => rfl)) ?_
  rintro y ⟨_, _⟩ ⟨rfl, rfl⟩
  exact hQ y

theorem wp_loggedEnd_log {message : RPCMessage} {Q : Option Unit → Endpoint κ × Bytes → Prop}
    (hlog : logFd ≠ connection.sockFd)
    (hI : ∀ part, part <+: (logRecord message).toBytes → I (e, logged ++ part))
    (hQ : Q (some ()) (e, logged ++ (logRecord message).toBytes)) :
    wp (loggedEnd connection logFd ops I) (log logFd message) Q (e, logged) := by
  have write {logged buf : Bytes} {Q : Option (Fin (buf.length + 1)) → Endpoint κ × Bytes → Prop}
      (hI : I (e, logged)) (hQ : Q (some (Fin.last _)) (e, logged ++ buf)) :
      wp (loggedEnd connection logFd ops I) (sys (.write logFd buf)) Q (e, logged) := by
    refine ⟨⟨hI, .inr rfl⟩, ?_⟩
    rintro r ⟨e', logged'⟩ ⟨⟨rfl, rfl⟩, hnote⟩
    have hlogged : logged' = logged ++ buf := hnote.trans (by simp [written])
    rwa [hlogged, if_neg hlog]
  rw [log, wp_bind]
  refine write (by simpa using hI [] List.nil_prefix) ?_
  rw [Option.isNone_some, if_neg Bool.false_ne_true, wp_bind]
  refine write (hI _ (List.prefix_append _ _)) ?_
  rw [Option.isNone_some, if_neg Bool.false_ne_true, List.append_assoc]
  exact hQ

/-- A message is sent as it is, and logged if there is a log. -/
theorem wp_loggedEnd_sendMessage {f : Frame} {body : Option Bytes}
    {Q : Option Unit → Endpoint κ × Bytes → Prop} (hlog : logFd ≠ connection.sockFd)
    (hsend : ∀ sent, sent <+: f.toBytes → I (e.send sent, logged))
    (hlogs : 0 ≤ logFd → ∀ part, part <+: (logRecord ⟨f.mark, f.header, body⟩).toBytes →
      I (e.send f.toBytes, logged ++ part))
    (hQ : ∀ more, (0 ≤ logFd → more = (logRecord ⟨f.mark, f.header, body⟩).toBytes) →
      Q (some ()) (e.send f.toBytes, logged ++ more)) :
    wp (loggedEnd connection logFd ops I)
      (sendMessage connection ⟨f.mark, f.header, body⟩ f.data logFd) Q (e, logged) := by
  have write {e : Endpoint κ} {buf : Bytes}
      {Q : Option (Fin (buf.length + 1)) → Endpoint κ × Bytes → Prop} (hI : I (e, logged))
      (hQ : Q (some (Fin.last _)) (e.send buf, logged)) :
      wp (loggedEnd connection logFd ops I) (sys (.write connection.sockFd buf)) Q (e, logged) := by
    refine ⟨⟨hI, .inl rfl⟩, ?_⟩
    rintro r ⟨e', logged'⟩ ⟨⟨rfl, rfl⟩, hnote⟩
    have hlogged : logged' = logged := hnote.trans (if_neg hlog.symm)
    rwa [hlogged, if_pos rfl]
  have hwhole : (e.send (f.mark.toBytes ++ f.header.toBytes)).send f.data = e.send f.toBytes := by
    simp [Endpoint.send, Frame.toBytes]
  rw [sendMessage, wp_bind]
  refine write (by simpa using hsend [] List.nil_prefix) ?_
  simp only [wroteAll_last, Bool.not_true, Bool.false_eq_true, if_false, wp_bind]
  refine write (hsend _ (List.prefix_append _ _)) ?_
  rw [hwhole]
  simp only [wroteAll_last, Bool.not_true, Bool.false_eq_true, if_false]
  split_ifs with hfd
  · rw [wp_bind]
    exact wp_loggedEnd_log hlog (hlogs hfd) (hQ _ fun _ => rfl)
  · have hnothing := hQ [] fun hfd' => absurd hfd' hfd
    rwa [List.append_nil] at hnothing

end Endpoints

section Sides

variable {κ : Type} {ops : StoreOps κ} {connection : Connection} {logFd : Fd} {h : Host} {n : Nat}
  {path logged : Bytes}

/-- One side with its store and its files, where an invariant of them is watched. -/
def diskEnv (ops : StoreOps κ) (J : (Host × κ) × Disk → Prop) :
    Env SysOp SysOp.Result ((Host × κ) × Disk) :=
  ((hostEnv ops).ghost Disk.note).watch J

theorem wp_disk {J : (Host × κ) × Disk → Prop} {k : κ} {d : Disk} {op : SysOp}
    {Q : op.Result → (Host × κ) × Disk → Prop} (hJ : J ((h, k), d))
    (hQ : ∀ r h' k', h.act op r h' → ops.act k op r k' → Q r ((h', k'), Disk.note op r d)) :
    wp (diskEnv ops J) (sys op) Q ((h, k), d) := by
  refine ⟨⟨hJ, trivial⟩, ?_⟩
  rintro r ⟨⟨h', k'⟩, d'⟩ ⟨⟨hact, hstore⟩, rfl⟩
  exact hQ r h' k' hact hstore

/-- An operation that has nothing to do with files. -/
theorem wp_disk_quiet {J : (Host × κ) × Disk → Prop} {k : κ} {d : Disk} {op : SysOp}
    {Q : op.Result → (Host × κ) × Disk → Prop} (hJ : J ((h, k), d))
    (hnote : ∀ r, Disk.note op r d = d)
    (hQ : ∀ r h' k', h.act op r h' → ops.act k op r k' → Q r ((h', k'), d)) :
    wp (diskEnv ops J) (sys op) Q ((h, k), d) := by
  refine wp_disk hJ fun r h' k' hact hstore => ?_
  rw [hnote]
  exact hQ r h' k' hact hstore

/-- What a program does at one end of a connection, it does on its side, and what it logs goes to
the file of its side. -/
theorem wp_disk_connection {α : Type} {p : Sys α} {I : Endpoint κ × Bytes → Prop}
    {J : (Host × κ) × Disk → Prop} {Q : α → Endpoint κ × Bytes → Prop} {k : κ}
    (hsock : h.files connection.sockFd = some (.connection n)) (hlog : h.files logFd = some .log)
    (hJ : ∀ e more, I (e, more) →
      J ((h.after n e, e.store), .opened logFd path (logged ++ more)))
    (hp : wp (loggedEnd connection logFd ops I) p Q (.fresh k, [])) :
    wp (diskEnv ops J) p (fun a v => ∃ e more,
      v = ((h.after n e, e.store), .opened logFd path (logged ++ more)) ∧ Q a (e, more))
      ((h, k), .opened logFd path logged) := by
  have hne : connection.sockFd ≠ logFd := by
    intro heq
    rw [heq, hlog] at hsock
    cases hsock
  have hside : (endpointEnv connection.sockFd logFd ops anything).Simulates (hostEnv ops)
      fun e v => v = (h.after n e, e.store) :=
    Env.Simulates.of_watch (host_simulates (G := fun _ => True) hsock hlog fun _ _ => trivial)
      fun _ => trivial
  have hnote (e : Endpoint κ) (op : SysOp) (r : op.Result) (more : Bytes) (d : Disk)
      (hallows : (endpointEnv connection.sockFd logFd ops anything).allows e op)
      (hd : d = .opened logFd path (logged ++ more)) :
      Disk.note op r d = .opened logFd path (logged ++ written logFd op r more) := by
    subst hd
    cases op with
    | write fd buf =>
      cases r with
      | none => rfl
      | some m =>
        rcases hallows with rfl | rfl
        · rw [Disk.note_write_of_ne hne, written, if_neg hne]
        · rw [Disk.note_write_self, written, if_pos rfl, List.append_assoc]
    | creat path => exact hallows.elim
    | close fd => exact hallows.elim
    | _ => rfl
  have hnoted := @Env.Simulates.ghost _ _ _ _ _ _ _ _ _ hside (written logFd) Disk.note
    (fun more d => d = .opened logFd path (logged ++ more)) hnote
  have hwatched := hnoted.watch (I := I) (J := J) fun x y hxy hI => by
    rw [show y = (y.1, y.2) from rfl, hxy.1, hxy.2]
    exact hJ x.1 x.2 hI
  refine wp_mono (hwatched.wp hp ⟨by rw [Host.after_fresh]; rfl, by rw [List.append_nil]⟩) ?_
  rintro a ⟨v, d⟩ ⟨⟨e, more⟩, ⟨rfl, rfl⟩, hQ⟩
  exact ⟨e, more, rfl, hQ⟩

end Sides

end SoftwareDynamics.Network

import SoftwareDynamics.Network.Footprint

/-! What a connection carries where `write`s fail or are short.  A response is sent in two `write`s,
and a request that comes after one of them has cut a response short is answered all the same.  So
the frames stay whole just as long as no such request comes. -/

namespace SoftwareDynamics.Network

open ProofKit Prog

section Model

/-- What the next `write` on a connection is for: a mark and a header, or a body.  Once a `write`
has cut a frame short, it is for neither. -/
inductive Phase
  | header
  | body
  | cut
  deriving DecidableEq

/-- The phase after a `write` that was to send `wanted` bytes and sent only `sent` of them. -/
def Phase.next (wanted sent : Nat) : Phase → Phase
  | .header => if sent = wanted then .body else if sent = 0 then .header else .cut
  | .body => if sent = wanted then .header else .cut
  | .cut => .cut

/-- All bytes that have been put on a connection, and what the outcomes of the `write`s have come
to. -/
structure Link where
  output : Bytes
  phase : Phase

def Link.write (s : Link) (buf : Bytes) (sent : Nat) : Link :=
  ⟨s.output ++ buf.take sent, s.phase.next buf.length sent⟩

/-- How many bytes a `write` has sent. -/
def sentBy {n : Nat} (r : Option (Fin (n + 1))) : Nat := r.elim 0 Fin.val

/-- Each operation may have any result. -/
def linkEnv (sock : Fd) : Env SysOp SysOp.Result Link where
  allows _ _ := True
  act s op r s' :=
    match op, r with
    | .write fd buf, r => s' = if fd = sock then s.write buf (sentBy r) else s
    | _, _ => s' = s

/-- What has been read from a connection since a frame has been cut short. -/
def Link.readBehind (s : Link) (sock : Fd) (behind : Bytes) : (op : SysOp) → op.Result → Bytes
  | .read fd _, r => if fd = sock ∧ s.phase = .cut then behind ++ delivered r else behind
  | _, _ => behind

/-- Each operation may have any result, except that no request that is to be answered arrives as a
whole once a frame has been cut short. -/
def quietEnv (sock : Fd) : Env SysOp SysOp.Result (Link × Bytes) where
  allows _ _ := True
  act s op r s' := (linkEnv sock).act s.1 op r s'.1 ∧ s'.2 = s.1.readBehind sock s.2 op r ∧
    handled s'.2 = []

/-- Complete responses and nothing else. -/
def Whole (output : Bytes) : Prop :=
  ∃ responses, output = Frame.stream responses ∧
    ∀ f ∈ responses, f.header.messageType = .Response

/-- Complete responses, followed by at most one incomplete frame. -/
def Framed (output : Bytes) : Prop :=
  ∃ complete rest, output = complete ++ rest ∧ Whole complete ∧
    ∃ f : Frame, rest <+: f.toBytes ∧ rest ≠ f.toBytes

end Model

section Framing

variable {connection : Connection} {logFd : Fd} {s : Link} {output rest behind : Bytes} {f : Frame}

theorem Whole.append (h : Whole output) (hf : f.header.messageType = .Response) :
    Whole (output ++ f.toBytes) := by
  obtain ⟨responses, rfl, hresponses⟩ := h
  refine ⟨responses ++ [f], by simp, fun g hg => ?_⟩
  rcases List.mem_append.mp hg with hg | hg
  · exact hresponses g hg
  · rwa [List.mem_singleton.mp hg]

theorem Whole.framed (h : Whole output) : Framed output :=
  ⟨output, [], (List.append_nil output).symm, h, .request [] [] (by decide), List.nil_prefix,
    (Frame.toBytes_ne_nil _).symm⟩

/-- Complete responses and some of the next one. -/
theorem Whole.framed_append (h : Whole output) (hf : f.header.messageType = .Response)
    (hrest : rest <+: f.toBytes) : Framed (output ++ rest) := by
  by_cases heq : rest = f.toBytes
  · rw [heq]
    exact (h.append hf).framed
  · exact ⟨output, rest, rfl, h, f, hrest, heq⟩

theorem sentBy_of_wroteAll {n : Nat} {r : Option (Fin (n + 1))} (h : wroteAll r) :
    sentBy r = n := by
  obtain rfl : r = some (Fin.last n) := by simpa [wroteAll] using h
  rfl

theorem sentBy_lt {n : Nat} {r : Option (Fin (n + 1))} (h : ¬wroteAll r) (hn : 0 < n) :
    sentBy r < n := by
  cases r with
  | none => exact hn
  | some k =>
    have hne : k ≠ Fin.last n := fun heq => h (by rw [heq, wroteAll_last])
    exact Fin.val_lt_last hne

/-- Between two responses, or after one that has been cut short, where `got` has been read since. -/
def Between (got : Bytes) (s : Link) (behind : Bytes) : Prop :=
  (s.phase = .header ∧ Whole s.output ∧ behind = []) ∨
    (s.phase = .cut ∧ Framed s.output ∧ behind = got ∧ handled got = [])

theorem handled_nil : handled [] = [] := handled_of_none (by decide)

/-- A request that has arrived as a whole is to be answered, unless its method is unknown. -/
theorem unknown_of_handled (h : handled f.toBytes = []) : f.methodName ∉ methods := by
  intro hknown
  rw [← List.append_nil f.toBytes, handled_of_first (Frame.first_append f []), if_pos hknown] at h
  split_ifs at h

theorem Between.framed {got : Bytes} (h : Between got s behind) : Framed s.output :=
  h.elim (fun h => h.2.1.framed) fun h => h.2.1

/-- The mark and the header of a response are not sent as a whole. -/
theorem Between.of_header {buf : Bytes} {sent : Nat} (hf : f.header.messageType = .Response)
    (hphase : s.phase = .header) (hwhole : Whole s.output) (hpre : buf <+: f.toBytes)
    (hsent : sent < buf.length) : Between [] (s.write buf sent) [] := by
  simp only [Between, Link.write, hphase, Phase.next, if_neg (Nat.ne_of_lt hsent)]
  by_cases hzero : sent = 0
  · rw [if_pos hzero, hzero, List.take_zero, List.append_nil]
    exact .inl ⟨rfl, hwhole, trivial⟩
  · rw [if_neg hzero]
    exact .inr ⟨rfl, hwhole.framed_append hf ((List.take_prefix _ _).trans hpre), trivial,
      handled_nil⟩

/-- The mark and the header of a response have been sent, and some of its body is. -/
theorem Whole.between_of_body {complete : Bytes} (hwhole : Whole complete)
    (hf : f.header.messageType = .Response)
    (houtput : s.output = complete ++ (f.mark.toBytes ++ f.header.toBytes))
    (hphase : s.phase = .body) (sent : Nat) : Between [] (s.write f.data sent) [] := by
  simp only [Between, Link.write, hphase, Phase.next, houtput, List.append_assoc complete]
  by_cases hall : sent = f.data.length
  · rw [if_pos hall, hall, List.take_length]
    exact .inl ⟨rfl, hwhole.append hf, trivial⟩
  · rw [if_neg hall]
    exact .inr ⟨rfl, hwhole.framed_append hf
      ((List.prefix_append_right_inj _).mpr (List.take_prefix _ _)), trivial, handled_nil⟩

/-- The connection, where what it carries is watched. -/
def watchedLink (connection : Connection) : Env SysOp SysOp.Result (Link × Bytes) :=
  (quietEnv connection.sockFd).watch fun s => Framed s.1.output

/-- What is not written to the connection leaves it as it is. -/
theorem linkEnv_keeps {sock : Fd} {op : SysOp} {r : op.Result} {s' : Link}
    (hop : ∀ buf, op ≠ .write sock buf) (h : (linkEnv sock).act s op r s') : s' = s := by
  cases op with
  | write fd buf =>
    have hfd : fd ≠ sock := fun heq => hop buf (by rw [heq])
    simpa [linkEnv, hfd] using h
  | _ => exact h

/-- The operation neither reads from the socket nor writes to it. -/
def SysOp.Apart (sock : Fd) : SysOp → Prop
  | .read fd _ | .write fd _ => fd ≠ sock
  | _ => True

theorem quietEnv_keeps {sock : Fd} {op : SysOp} {r : op.Result} {s s' : Link × Bytes}
    (h : (quietEnv sock).act s op r s') (hop : op.Apart sock) : s' = s := by
  obtain ⟨hlink, hbehind, -⟩ := h
  refine Prod.ext (linkEnv_keeps (fun buf heq => ?_) hlink) (hbehind.trans ?_)
  · subst heq
    exact hop rfl
  · cases op with
    | read fd count => rw [Link.readBehind, if_neg fun h => hop h.1]
    | _ => rfl

/-- What keeps away from the socket leaves the connection as it is. -/
theorem wp_apart {α : Type} {p : Sys α} {J : Link × Bytes → Prop}
    (hp : p.Only (SysOp.Apart connection.sockFd)) (hJ : ∀ s, J s → Framed s.1.output)
    {s : Link × Bytes} (h : J s) : wp (watchedLink connection) p (fun _ => J) s := by
  refine hp.wp (fun s op hop hs => ?_) h
  refine ⟨⟨hJ s hs, trivial⟩, fun r s' hr => ?_⟩
  obtain rfl := quietEnv_keeps hr hop
  exact hs

theorem log_apart (hlog : logFd ≠ connection.sockFd) (message : RPCMessage) :
    (log logFd message).Only (SysOp.Apart connection.sockFd) :=
  log_only (fun _ => hlog) message

theorem nowUsec_apart : nowUsec.Only (SysOp.Apart connection.sockFd) :=
  nowUsec_only trivial

/-- `Between`, of a connection and what has been read from it. -/
abbrev AtRest (got : Bytes) (s : Link × Bytes) : Prop := Between got s.1 s.2

theorem wp_write_link {buf : Bytes} {Q : Option (Fin (buf.length + 1)) → Link × Bytes → Prop}
    (hs : Framed s.output) (h : ∀ r, Q r (s.write buf (sentBy r), behind)) :
    wp (watchedLink connection) (sys (.write connection.sockFd buf)) Q (s, behind) := by
  refine ⟨⟨hs, trivial⟩, ?_⟩
  rintro r ⟨s', behind'⟩ ⟨hlink, hbehind, -⟩
  obtain rfl : s' = s.write buf (sentBy r) := by simpa [linkEnv] using hlink
  obtain rfl : behind' = behind := hbehind
  exact h r

/-- A response is sent as a whole, or cut short, or not begun. -/
theorem wp_sendMessage_link {body : Option Bytes} (hlog : logFd ≠ connection.sockFd)
    (hf : f.header.messageType = .Response) (hphase : s.phase = .header) (hwhole : Whole s.output) :
    wp (watchedLink connection) (sendMessage connection ⟨f.mark, f.header, body⟩ f.data logFd)
      (fun _ => AtRest []) (s, []) := by
  have hlength : (f.mark.toBytes ++ f.header.toBytes).length = 88 := by simp [markSize, headerSize]
  rw [sendMessage]
  dsimp only
  rw [wp_bind]
  refine wp_write_link hwhole.framed fun r => ?_
  by_cases hall : wroteAll r
  · -- The mark and the header have been sent, and the body comes next.
    have hsent := sentBy_of_wroteAll hall
    have houtput : (s.write (f.mark.toBytes ++ f.header.toBytes) (sentBy r)).output =
        s.output ++ (f.mark.toBytes ++ f.header.toBytes) := by
      rw [Link.write, hsent, List.take_length]
    have hbody : (s.write (f.mark.toBytes ++ f.header.toBytes) (sentBy r)).phase = .body := by
      rw [Link.write, hphase, Phase.next, if_pos hsent]
    generalize s.write (f.mark.toBytes ++ f.header.toBytes) (sentBy r) = s at houtput hbody
    simp only [hall, Bool.not_true, Bool.false_eq_true, if_false, wp_bind]
    refine wp_write_link ?_ fun r => ?_
    · rw [houtput]
      exact hwhole.framed_append hf (List.prefix_append _ _)
    have hbetween := hwhole.between_of_body hf houtput hbody (sentBy r)
    split
    · exact hbetween
    split
    · rw [wp_bind]
      exact wp_apart (log_apart hlog _) (fun _ => Between.framed) hbetween
    · exact hbetween
  · simp only [hall, Bool.not_false, if_true]
    exact .of_header hf hphase hwhole (List.prefix_append _ _) (sentBy_lt hall (by omega))

theorem wp_respond_link {request : Frame} {body : Bytes} (hbody : body.length < 2 ^ 32)
    {status : RpcStatus} (hlog : logFd ≠ connection.sockFd) (hphase : s.phase = .header)
    (hwhole : Whole s.output) :
    wp (watchedLink connection) (respond connection request body status logFd)
      (fun _ => AtRest []) (s, []) := by
  have hkeep {α : Type} {p : Sys α} (hp : p.Only (SysOp.Apart connection.sockFd)) :
      wp (watchedLink connection) p (fun _ s' => s' = (s, [])) (s, []) :=
    wp_apart (J := (· = (s, []))) hp (fun s' hs' => by rw [hs']; exact hwhole.framed) rfl
  rw [respond, wp_bind, rpcSendResp, wp_bind]
  refine wp_mono (hkeep nowUsec_apart) fun now s' hs' => ?_
  subst hs'
  cases now with
  | none => exact .inl ⟨hphase, hwhole, rfl⟩
  | some now =>
    dsimp only
    rw [wp_bind]
    refine wp_mono (hkeep (ilog2_only (fun _ => trivial) _))
      fun lenLog s' hs' => ?_
    subst hs'
    exact wp_sendMessage_link (f := request.response body hbody status now lenLog) hlog rfl hphase
      hwhole

/-- Whatever store the connection is served with, its blocks do not touch the connection. -/
theorem keeps_link {J : Link × Bytes → Prop} (hJ : ∀ s, J s → Framed s.1.output) :
    Keeps (watchedLink connection) .shared () fun _ => J where
  indeterminate n s hs := by
    refine ⟨⟨hJ s hs, trivial⟩, fun r s' hr => ?_⟩
    obtain rfl := quietEnv_keeps hr trivial
    exact hs
  emplace key value s hs := by
    refine ⟨⟨hJ s hs, trivial⟩, fun r s' hr => ?_⟩
    obtain rfl := quietEnv_keeps hr trivial
    exact ⟨(), trivial, hs⟩
  find key s hs := by
    refine ⟨⟨hJ s hs, trivial⟩, fun r s' hr => ?_⟩
    obtain rfl := quietEnv_keeps hr trivial
    exact ⟨(), trivial, hs⟩

/-- A receiver reads on, and notes what it has read if a frame has been cut short before. -/
theorem receives_link (connection : Connection) :
    Receives (watchedLink connection) connection.sockFd (fun r s => ∃ got, AtRest got s ∧
      ∀ f, r = some f → got = f.toBytes) AtRest where
  read got k s _ _ hs := by
    refine ⟨⟨hs.framed, trivial⟩, ?_⟩
    rintro r ⟨s', behind'⟩ ⟨hlink, hbehind, hhandled⟩
    obtain rfl : s' = s.1 := hlink
    have hnext : AtRest (got ++ delivered r) (s.1, behind') := by
      rcases hs with ⟨hphase, hwhole, hnone⟩ | ⟨hphase, hframed, hgot, -⟩
      · refine .inl ⟨hphase, hwhole, ?_⟩
        simpa [Link.readBehind, hphase, hnone] using hbehind
      · have hgot' : behind' = got ++ delivered r := by
          simpa [Link.readBehind, hphase, hgot] using hbehind
        exact .inr ⟨hphase, hframed, hgot', hgot' ▸ hhandled⟩
    exact ⟨fun _ => ⟨_, hnext, nofun⟩, fun _ => hnext⟩
  malloc got n s hs := by
    refine ⟨⟨hs.framed, trivial⟩, fun r s' hr => ?_⟩
    obtain rfl := quietEnv_keeps hr trivial
    exact ⟨hs, fun _ => ⟨_, hs, nofun⟩⟩
  reject got s _ hs := ⟨got, hs, nofun⟩
  accept f s hs := ⟨f.toBytes, hs, fun g hg => by rw [Option.some.inj hg]⟩

/-- A round starts before a request of which nothing has been read yet. -/
def RoundEnd (action : Option RpcAction) (s : Link × Bytes) : Prop :=
  ∃ got, AtRest got s ∧ (action = none → got = [])

theorem wp_serveMessage_link (hlog : logFd ≠ connection.sockFd) {s : Link × Bytes}
    (h : AtRest [] s) :
    wp (watchedLink connection) (serveMessage connection logFd) RoundEnd s := by
  rw [serveMessage, wp_bind, rpcRecvReq, recvStamped, wp_bind]
  refine wp_mono ((receives_link connection).wp_recvMessage h) fun message s hmessage => ?_
  obtain ⟨got, hs, hgot⟩ := hmessage
  cases message with
  | none => exact ⟨got, hs, nofun⟩
  | some request =>
    obtain rfl := hgot request rfl
    dsimp only
    rw [wp_bind]
    refine wp_mono (wp_apart nowUsec_apart (fun _ => Between.framed) hs) fun now s hs => ?_
    cases now with
    | none => exact ⟨_, hs, nofun⟩
    | some now =>
      simp only [wp_pure]
      rw [wp_bind]
      refine wp_mono (wp_apart (log_apart hlog _) (fun _ => Between.framed) hs) fun _ s hs => ?_
      refine (keeps_link fun _ => Between.framed).wp_processCommand hs
        (fun status body k s hhandles hs => ?_) fun _ => ⟨_, hs, nofun⟩
      -- It is answered, so its method is known, and no frame has been cut short.
      rcases hs with ⟨hphase, hwhole, hnone⟩ | ⟨-, -, -, hhandled⟩
      · have hs : s = (s.1, []) := Prod.ext rfl hnone
        rw [hs]
        exact wp_mono (wp_respond_link hhandles.length_lt hlog hphase hwhole)
          fun _ _ hs => ⟨[], hs, fun _ => rfl⟩
      · exact absurd hhandles.mem_methods (unknown_of_handled (f := request) hhandled)

/-- If no request that is to be answered arrives as a whole once a `write` has cut a response short,
a connection carries complete responses at all times, followed by at most one incomplete frame. -/
theorem handleRpcConn_framed (hlog : logFd ≠ connection.sockFd)
    {c : Sys (Option RpcAction) × (Link × Bytes)}
    (hreach : (handleRpcConn connection logFd).Reach (quietEnv connection.sockFd)
      (.ret none, (⟨[], .header⟩, [])) c) : Framed c.2.1.output := by
  have hstart : RoundEnd none (⟨[], .header⟩, []) :=
    ⟨[], .inl ⟨rfl, ⟨[], rfl, by simp⟩, rfl⟩, fun _ => rfl⟩
  have hreach := Env.reach_watch (I := fun s : Link × Bytes => Framed s.1.output) hreach
  have hround (action : Option RpcAction) (s : Link × Bytes)
      (hgo : (handleRpcConn connection logFd).halted action = false) (h : RoundEnd action s) :
      wp (watchedLink connection) (serveMessage connection logFd) RoundEnd s := by
    obtain ⟨got, hs, hgot⟩ := h
    obtain rfl : action = none := Option.not_isSome_iff_eq_none.mp (Bool.eq_false_iff.mp hgo)
    rw [hgot rfl] at hs
    exact wp_serveMessage_link hlog hs
  have hallows (s : Link × Bytes) (op : SysOp) (h : (watchedLink connection).allows s op) :
      Framed s.1.output := h.1
  exact hreach.invariant hround hallows (fun _ _ ⟨_, hs, _⟩ => hs.framed) hstart

end Framing

section Broken

variable {σ : Type} {env : Env SysOp SysOp.Result σ} {connection : Connection} {logFd : Fd}
  {s : Link}

theorem linkEnv_open (sock : Fd) (s : Link) : Open (linkEnv sock) s :=
  ⟨fun _ _ _ => rfl, fun _ _ => rfl, fun _ => rfl, fun _ _ => rfl⟩

theorem linkEnv_absorbs {sock : Fd} (hlog : logFd ≠ sock) : Absorbs (linkEnv sock) s logFd :=
  fun buf => by simp [linkEnv, hlog]

theorem linkEnv_write {sock : Fd} (buf : Bytes) (sent : Fin (buf.length + 1)) :
    (linkEnv sock).act s (.write sock buf) (some sent) (s.write buf sent) := by
  simp [linkEnv, sentBy]

/-- As long as no frame has been cut short, no request is kept from arriving. -/
theorem quietEnv_of_link {sock : Fd} {op : SysOp} {r : op.Result} {s' : Link}
    (hphase : s.phase ≠ .cut) (h : (linkEnv sock).act s op r s') :
    (quietEnv sock).act (s, []) op r (s', []) := by
  refine ⟨h, ?_, handled_nil⟩
  cases op with
  | read fd count => simp [Link.readBehind, hphase]
  | _ => rfl

theorem quietEnv_open (sock : Fd) (hphase : s.phase ≠ .cut) : Open (quietEnv sock) (s, []) :=
  have h := linkEnv_open sock s
  ⟨fun _ _ _ => quietEnv_of_link hphase (h.read _ _ _),
    fun _ _ => quietEnv_of_link hphase (h.malloc _ _),
    fun _ => quietEnv_of_link hphase (h.gettimeofday _),
    fun _ _ => quietEnv_of_link hphase (h.indeterminate _ _)⟩

theorem exec_sendMessage_short {f : Frame} {sent : Nat} (hsent : sent < 88) {u t : σ}
    (hwrite : ∀ hlt : sent < (f.mark.toBytes ++ f.header.toBytes).length + 1,
      env.act u (.write connection.sockFd (f.mark.toBytes ++ f.header.toBytes)) (some ⟨sent, hlt⟩)
        t) :
    Exec env (sendMessage connection f.message f.data logFd) u none t := by
  have hlength : (f.mark.toBytes ++ f.header.toBytes).length = 88 := by simp [markSize, headerSize]
  have hlt : sent < (f.mark.toBytes ++ f.header.toBytes).length + 1 := by omega
  have hall : wroteAll (some (⟨sent, hlt⟩ : Fin _)) = false := by
    simp [wroteAll, Fin.ext_iff, hlength]
    omega
  rw [sendMessage]
  simp only [Frame.message]
  refine (Exec.perform (hwrite hlt)).bind ?_
  simp only [hall, Bool.not_false, if_true]
  exact .ret _ _

theorem exec_sendMessage_whole (hlog : logFd ≠ connection.sockFd) (message : RPCMessage)
    (body : Bytes) :
    Exec (linkEnv connection.sockFd) (sendMessage connection message body logFd) s (some ())
      ((s.write (message.mark.toBytes ++ message.header.toBytes)
        (message.mark.toBytes ++ message.header.toBytes).length).write body body.length) :=
  exec_sendMessage (linkEnv_write _ (Fin.last _)) (linkEnv_write _ (Fin.last _))
    (linkEnv_absorbs hlog)

def samplePing : Frame := .request (ascii "ping") [] (by decide)

/-- A `ping` may be served as any response to it may be sent. -/
theorem reach_ping {u : σ} (hopen : Open env u) (hlog : Absorbs env u logFd) (t : Frame → σ)
    (hsend : ∀ f : Frame, f.data = [] → ∃ result,
      Exec env (sendMessage connection f.message [] logFd) u result (t f)) :
    ∃ lenLog, (handleRpcConn connection logFd).Reach env (.ret none, u)
      (.ret none, t (samplePing.response [] (by decide) .Ok 0 lenLog)) := by
  obtain ⟨lenLog, hrespond⟩ := hopen.exec_respond samplePing _ .Ok t hsend
  have hcommand : Exec env (processCommand connection samplePing logFd) u none
      (t (samplePing.response [] (by decide) .Ok 0 lenLog)) := by
    rw [processCommand_eq, if_pos (by decide)]
    exact hrespond.bind (.ret _ _)
  exact ⟨lenLog, Process.Reach.of_round rfl (hopen.exec_serveMessage hlog rfl hcommand)⟩

theorem samplePing_start (lenLog : UInt8) :
    ∃ rest, (samplePing.response [] (by decide) .Ok 0 lenLog).mark.toBytes ++
      (samplePing.response [] (by decide) .Ok 0 lenLog).header.toBytes =
        [0xef, 0xbe, 0xad, 0xde, 72, 0, 0, 0] ++ rest := by
  have hmark : (⟨MARK_SIGNATURE, 72, 0, 0⟩ : RPCMark).toBytes =
      [0xef, 0xbe, 0xad, 0xde, 72, 0, 0, 0] ++ List.replicate 8 0 := by decide
  exact ⟨List.replicate 8 0 ++ (samplePing.response [] (by decide) .Ok 0 lenLog).header.toBytes, by
    rw [← List.append_assoc, ← hmark]
    rfl⟩

/-- Of the response to a `ping`, one byte may be sent. -/
theorem reach_cut (hphase : s.phase = .header) :
    (handleRpcConn ⟨5, 0, 0, 0, 0⟩ 4).Reach (quietEnv 5) (.ret none, (s, []))
      (.ret none, (⟨s.output ++ [0xef], .cut⟩, [])) := by
  have hne : s.phase ≠ .cut := by rw [hphase]; decide
  obtain ⟨lenLog, hreach⟩ := @reach_ping _ (quietEnv 5) ⟨5, 0, 0, 0, 0⟩ 4 (s, [])
    (quietEnv_open 5 hne) (fun _ => quietEnv_of_link hne (linkEnv_absorbs (by decide) _))
    (fun f => (s.write (f.mark.toBytes ++ f.header.toBytes) 1, [])) fun f hf => by
      have hexec := @exec_sendMessage_short _ (quietEnv 5) ⟨5, 0, 0, 0, 0⟩ 4 f 1 (by decide) _
        (s.write (f.mark.toBytes ++ f.header.toBytes) 1, [])
        fun hlt => quietEnv_of_link hne (linkEnv_write _ ⟨1, hlt⟩)
      rw [hf] at hexec
      exact ⟨none, hexec⟩
  obtain ⟨rest, hstart⟩ := samplePing_start lenLog
  simp only [hstart] at hreach
  simpa [Link.write, Phase.next, hphase] using hreach

/-- A `ping` may be answered. -/
theorem reach_answer (hphase : s.phase = .header) :
    ∃ lenLog, (handleRpcConn ⟨5, 0, 0, 0, 0⟩ 4).Reach (quietEnv 5) (.ret none, (s, []))
      (.ret none, (⟨s.output ++ (samplePing.response [] (by decide) .Ok 0 lenLog).toBytes, .header⟩,
        [])) := by
  have hne : s.phase ≠ .cut := by rw [hphase]; decide
  refine @reach_ping _ (quietEnv 5) ⟨5, 0, 0, 0, 0⟩ 4 (s, []) (quietEnv_open 5 hne)
    (fun _ => quietEnv_of_link hne (linkEnv_absorbs (by decide) _))
    (fun f => (⟨s.output ++ f.toBytes, .header⟩, [])) fun f hf => ⟨some (), ?_⟩
  have hhead : s.write (f.mark.toBytes ++ f.header.toBytes)
      (f.mark.toBytes ++ f.header.toBytes).length =
        ⟨s.output ++ (f.mark.toBytes ++ f.header.toBytes), .body⟩ := by
    rw [Link.write, hphase, Phase.next, if_pos rfl, List.take_length]
  have hbody : (⟨s.output ++ (f.mark.toBytes ++ f.header.toBytes), .body⟩ : Link).write [] 0 =
      ⟨s.output ++ f.toBytes, .header⟩ := by
    simp [Link.write, Phase.next, Frame.toBytes, hf]
  refine exec_sendMessage (quietEnv_of_link hne (hhead ▸ linkEnv_write _ (Fin.last _)))
    (quietEnv_of_link (by simp) (hbody ▸ linkEnv_write [] (Fin.last _)))
    fun _ => quietEnv_of_link (by simp) (linkEnv_absorbs (by decide) _)

/-- A frame starts with its signature and the length of its header. -/
theorem Framed.take_eight {output : Bytes} (h : Framed output) (hlength : 8 ≤ output.length) :
    (output.take 8).drop 4 = [72, 0, 0, 0] := by
  have start (f : Frame) : (f.toBytes.take 8).drop 4 = [72, 0, 0, 0] := by
    have hheader : f.mark.headerLen = 72 := UInt32.toNat_inj.mp f.headerLen_eq
    simp [Frame.toBytes, RPCMark.toBytes, RPCMark.fields, hheader, List.take_append]
    decide
  obtain ⟨complete, rest, rfl, ⟨responses, rfl, -⟩, f, ⟨behind, hbehind⟩, -⟩ := h
  cases responses with
  | nil =>
    rw [Frame.stream_nil, List.nil_append] at hlength ⊢
    rw [← start f, ← hbehind, List.take_append_of_le_length hlength]
  | cons g responses =>
    rw [← start g, Frame.stream_cons, List.append_assoc,
      List.take_append_of_le_length (by rw [g.toBytes_length]; simp [markSize, headerSize]; omega)]

/-- The first response is sent as a whole, and the second one is cut short after one byte. -/
theorem handleRpcConn_framed_cut : ∃ c response, (handleRpcConn ⟨5, 0, 0, 0, 0⟩ 4).Reach
    (quietEnv 5) (.ret none, (⟨[], .header⟩, [])) c ∧
    c.2.1 = ⟨Frame.toBytes response ++ [0xef], .cut⟩ ∧ Framed c.2.1.output := by
  obtain ⟨lenLog, hanswer⟩ := @reach_answer ⟨[], .header⟩ rfl
  have hreach := hanswer.trans (reach_cut rfl)
  exact ⟨_, _, hreach, rfl, handleRpcConn_framed (by decide) hreach⟩

/-- The first response is cut short after one byte, and the second one is sent behind it. -/
theorem handleRpcConn_sends_on : ∃ c, (handleRpcConn ⟨5, 0, 0, 0, 0⟩ 4).Reach (linkEnv 5)
    (.ret none, ⟨[], .header⟩) c ∧ ¬Framed c.2.output := by
  have hcut := Process.Reach.map Prod.fst (fun s op r s' hr => And.left hr)
    (@reach_cut ⟨[], .header⟩ rfl)
  obtain ⟨lenLog, hwhole⟩ := @reach_ping _ (linkEnv 5) ⟨5, 0, 0, 0, 0⟩ 4 ⟨[0xef], .cut⟩
    (linkEnv_open 5 _) (linkEnv_absorbs (by decide)) _ fun f hf => by
      have hexec := @exec_sendMessage_whole ⟨5, 0, 0, 0, 0⟩ 4 ⟨[0xef], .cut⟩ (by decide)
        f.message f.data
      rw [hf] at hexec
      exact ⟨some (), hexec⟩
  obtain ⟨rest, hstart⟩ := samplePing_start lenLog
  refine ⟨_, hcut.trans hwhole, fun hframed => ?_⟩
  simp only [Frame.message, hstart, Link.write] at hframed
  have height := hframed.take_eight (by simp)
  simp at height

end Broken

end SoftwareDynamics.Network

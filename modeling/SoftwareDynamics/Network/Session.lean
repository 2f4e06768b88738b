import SoftwareDynamics.Network.Stream

/-! Serving a whole connection.  Whatever stream arrives, the requests that are complete and known
are answered in order, and nothing else is sent. -/

namespace SoftwareDynamics.Network

open ProofKit Prog

section Rounds

variable {stream rest : Bytes} {connection : Connection} {logFd : Fd} {e : Endpoint Keystore}

/-- A round ends the connection before a request that is not handled, or answers the next one. -/
inductive Serves (rest : Bytes) (e : Endpoint Keystore) :
    Option RpcAction → Endpoint Keystore → Prop
  | stop {e' : Endpoint Keystore} : handled rest = [] → e'.sent = e.sent → e'.store = e.store →
      Serves rest e (some .CONTINUE) e'
  | answer {e' : Endpoint Keystore} {request response : Frame} {rest' : Bytes} :
      rest = request.toBytes ++ rest' → e'.got = e.got ++ request.toBytes →
      e'.sent = e.sent ++ response.toBytes →
      Handles .alone e.store request response.header.status response.data e'.store →
      response.Answers request → Serves rest e request.action e'

theorem wp_serveMessage_stream (hlog : logFd ≠ connection.sockFd) (hrest : e.got ++ rest = stream) :
    wp (streamEnv connection logFd stream) (serveMessage connection logFd) (Serves rest e) e := by
  subst hrest
  refine wp_mono (wp_stream (List.prefix_append _ _) (wp_serveMessage hlog)) ?_
  rintro action e' ⟨t, ⟨rfl, hgot, hended⟩, hround⟩
  have hgot : t.got <+: rest := (List.prefix_append_right_inj e.got).mp hgot
  have hended (h : t.ended) : t.got = rest := List.append_cancel_left (hended h)
  obtain ⟨rest', rfl⟩ := hgot
  cases hround with
  | ended hsent hstore hend hfirst =>
    exact .stop (handled_of_none (hended hend ▸ hfirst)) (by simp [Endpoint.after, hsent]) hstore
  | rejected hsent hstore hnone =>
    exact .stop (handled_of_none (hnone rest')) (by simp [Endpoint.after, hsent]) hstore
  | unknown hsent hstore hgot hunknown =>
    refine .stop ?_ (by simp [Endpoint.after, hsent]) hstore
    rw [handled_of_first (hgot ▸ Frame.first_append _ rest'), if_neg hunknown]
  | answered _ hgot hsent hhandles hanswers =>
    exact .answer (show t.got ++ rest' = _ by rw [hgot]) (by simp [Endpoint.after, hgot])
      (by simp [Endpoint.after, hsent]) hhandles hanswers

/-- What is left when a connection has been served. -/
def ServedAll (rest : Bytes) (e : Endpoint Keystore) (action : Option RpcAction)
    (e' : Endpoint Keystore) : Prop :=
  ∃ responses, e'.sent = e.sent ++ Frame.stream responses ∧
    Served .alone e.store (handled rest) responses e'.store ∧
    action = if ∃ request ∈ handled rest, request.methodName = ascii "quit" then some .QUIT
      else some .CONTINUE

/-- A connection is served within one round more than there are requests to handle. -/
theorem handleRpcConn_within (hlog : logFd ≠ connection.sockFd) (hrest : e.got ++ rest = stream)
    {n : Nat} (hn : (handled rest).length < n) :
    (handleRpcConn connection logFd).Within (streamEnv connection logFd stream)
      (ServedAll rest e) n none e := by
  induction n generalizing rest e with
  | zero => omega
  | succ n ih =>
    refine .of_round rfl (wp_mono (wp_serveMessage_stream hlog hrest) fun action e' hserves => ?_)
    cases hserves with
    | stop hhandled hsent hstore =>
      refine .of_halted rfl ⟨[], ?_, ?_, ?_⟩
      · simp [hsent]
      · rw [hhandled, hstore]
        exact .nil _
      · simp [hhandled]
    | @answer _ request response rest' hbytes hgot hsent hhandles hanswers =>
      have hknown := hhandles.mem_methods
      have hhandled := handled_of_first (hbytes ▸ Frame.first_append request rest')
      rw [if_pos hknown] at hhandled
      by_cases hquit : request.methodName = ascii "quit"
      · rw [if_pos hquit] at hhandled
        rw [Frame.action, if_pos hquit]
        refine .of_halted rfl ⟨[response], by simpa using hsent, ?_, by simp [hhandled, hquit]⟩
        rw [hhandled]
        exact .one hhandles hanswers
      · rw [if_neg hquit] at hhandled
        rw [Frame.action, if_neg hquit]
        have hgot' : e'.got ++ rest' = stream := by rw [hgot, List.append_assoc, ← hbytes, hrest]
        refine (ih hgot' (by rw [hhandled, List.length_cons] at hn; omega)).mono ?_
        rintro action e'' ⟨responses, hsent', hserved, haction⟩
        refine ⟨response :: responses, by rw [hsent', hsent]; simp, ?_, ?_⟩
        · rw [hhandled]
          exact .cons hhandles hanswers hserved
        · rw [haction, hhandled]
          simp [hquit]

end Rounds

section Connection

/-- For every stream that arrives on a connection, and every way in which the `read`s cut it, the
connection is served in finitely many rounds.  The responses sent are one for each handled request,
in order and nothing else, each of them echoes its request and carries the answer to it on the
keystore that the requests before it have left, and the keystore is left as the handled requests
leave it. -/
theorem handleRpcConn_serves (connection : Connection) (logFd : Fd)
    (hlog : logFd ≠ connection.sockFd) (stream : Bytes) (keystore : Keystore)
    (hlong : ∀ request ∈ handled stream, request.LongEnough) :
    (∃ action e, (handleRpcConn connection logFd).Run (streamEnv connection logFd stream)
      none (.fresh keystore) action e) ∧
    (∀ n action e, (handleRpcConn connection logFd).Rounds (streamEnv connection logFd stream)
      n none (.fresh keystore) action e → n ≤ (handled stream).length + 1) ∧
    ∀ action e, (handleRpcConn connection logFd).Run (streamEnv connection logFd stream)
        none (.fresh keystore) action e →
      ∃ responses, e.sent = Frame.stream responses ∧
        responses.length = (handled stream).length ∧
        (∀ i (hi : i < (handled stream).length) (hi' : i < responses.length),
          let before := keystore.after ((handled stream).take i)
          responses[i].Answers (handled stream)[i] ∧
          (before.answer (handled stream)[i]).1 = responses[i].header.status ∧
          (before.answer (handled stream)[i]).2.1 = responses[i].data) ∧
        e.store = keystore.after (handled stream) ∧
        action = if ∃ request ∈ handled stream, request.methodName = ascii "quit" then some .QUIT
          else some .CONTINUE := by
  have hwithin := handleRpcConn_within (e := .fresh keystore) hlog (List.nil_append stream)
    (Nat.lt_succ_self _)
  refine ⟨hwithin.exists_run (endpointEnv_total _ _ _), fun n action e hrounds =>
    hwithin.rounds_le hrounds, fun action e hrun => ?_⟩
  obtain ⟨responses, hsent, hserved, haction⟩ := hrun.of_within hwithin
  obtain ⟨hstore, hanswers⟩ := hserved.eq_answers hlong
  exact ⟨responses, hsent, hserved.length_eq, hanswers, hstore, haction⟩

/-- A connection on which a `ping` and a `quit` arrive. -/
theorem handleRpcConn_serves_two : ∃ action e responses,
    (handleRpcConn ⟨5, 0, 0, 0, 0⟩ 4).Run (streamEnv ⟨5, 0, 0, 0, 0⟩ 4 (Frame.stream
      [.request (ascii "ping") [1, 2, 3] (by decide), .request (ascii "quit") [] (by decide)]))
      none (.fresh ∅) action e ∧
    action = some .QUIT ∧ e.sent = Frame.stream responses ∧ responses.length = 2 := by
  have hhandled : handled (Frame.stream
      [.request (ascii "ping") [1, 2, 3] (by decide), .request (ascii "quit") [] (by decide)]) =
      [.request (ascii "ping") [1, 2, 3] (by decide), .request (ascii "quit") [] (by decide)] := by
    rw [Frame.stream_cons, handled_of_first (Frame.first_append _ _), if_pos (by decide),
      if_neg (by decide), Frame.stream_cons, handled_of_first (Frame.first_append _ _),
      if_pos (by decide), if_pos (by decide)]
  obtain ⟨⟨action, e, hrun⟩, -, hall⟩ := handleRpcConn_serves ⟨5, 0, 0, 0, 0⟩ 4 (by decide)
    (Frame.stream
      [.request (ascii "ping") [1, 2, 3] (by decide), .request (ascii "quit") [] (by decide)]) ∅
    (by rw [hhandled]; simp [Frame.LongEnough]; decide)
  obtain ⟨responses, hsent, hlength, -, -, haction⟩ := hall action e hrun
  rw [hhandled] at hlength haction
  exact ⟨action, e, responses, hrun, haction.trans (by decide), hsent, hlength⟩

end Connection

end SoftwareDynamics.Network

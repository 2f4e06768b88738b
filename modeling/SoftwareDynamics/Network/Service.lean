import SoftwareDynamics.Network.Server
import SoftwareDynamics.ProofKit.Env

/-! What the server is for: how each request is to be answered, and what it does to the keystore.
The keystore is seen through its operations, so that a listener thread may have it alone or share
it with others. -/

namespace SoftwareDynamics.Network

open ProofKit Prog

section Specification

/-- What the blocks under the spinlock do to a store, as one thread sees it. -/
structure StoreOps (κ : Type) where
  emplace : κ → Key → Value → κ → Prop
  find : κ → Bytes → Option Value → κ → Prop

/-- The keystore of a thread that no other thread interferes with. -/
def StoreOps.alone : StoreOps Keystore where
  emplace keystore key value keystore' := keystore' = keystore.emplace key.1 value
  find keystore key result keystore' := result = keystore.lookup key ∧ keystore' = keystore

/-- A keystore that others may change between any two operations. -/
def StoreOps.shared : StoreOps Unit where
  emplace _ _ _ _ := True
  find _ _ _ _ := True

variable {κ : Type}

/-- The status and the body that a request is answered with, and the store that is left.  A write
request that is shorter than its struct may be taken for any one, as what is behind it is not
initialized. -/
inductive Handles (ops : StoreOps κ) (k : κ) (request : Frame) : RpcStatus → Bytes → κ → Prop
  | ping : request.methodName = ascii "ping" → Handles ops k request .Ok request.data k
  | write {key : Key} {value : Value} {k' : κ} : request.methodName = ascii "write" →
      (WriteRequest.size ≤ request.data.length →
        WriteRequest.parse request.data = some (key, value)) →
      ops.emplace k key value k' → Handles ops k request .Ok [] k'
  | badWrite : request.methodName = ascii "write" →
      (WriteRequest.size ≤ request.data.length → WriteRequest.parse request.data = none) →
      Handles ops k request .BadArg [] k
  | read {value : Value} {k' : κ} : request.methodName = ascii "read" →
      ops.find k request.data (some value) k' → Handles ops k request .Ok value.1 k'
  | notFound {k' : κ} : request.methodName = ascii "read" →
      ops.find k request.data none k' → Handles ops k request .NotFound [] k'
  | quit : request.methodName = ascii "quit" → Handles ops k request .Ok [] k

/-- The status and the body that a request is answered with, and the keystore that is left. -/
def Keystore.answer (keystore : Keystore) (request : Frame) : RpcStatus × Bytes × Keystore :=
  if request.methodName = ascii "ping" then (.Ok, request.data, keystore)
  else if request.methodName = ascii "write" then
    match WriteRequest.parse request.data with
    | some (key, value) => (.Ok, [], keystore.emplace key.1 value)
    | none => (.BadArg, [], keystore)
  else if request.methodName = ascii "read" then
    match keystore.lookup request.data with
    | some value => (.Ok, value.1, keystore)
    | none => (.NotFound, [], keystore)
  else (.Ok, [], keystore)

/-- The keystore that a sequence of requests leaves. -/
def Keystore.after (keystore : Keystore) (requests : List Frame) : Keystore :=
  requests.foldl (fun keystore request => (keystore.answer request).2.2) keystore

/-- A response that echoes a request, in all but its length, its status, its type and the fields
that tell when it was handled and how long it is. -/
structure Frame.Answers (response request : Frame) : Prop where
  mark : response.mark = { request.mark with dataLen := response.mark.dataLen }
  header : response.header = { request.header with
    reqRecvTimeUs := response.header.reqRecvTimeUs
    resSendTimeUs := response.header.resSendTimeUs
    resLenLog := response.header.resLenLog
    messageType := .Response
    status := response.header.status }

/-- A request as a client builds it, from what its caller asks for. -/
structure Frame.Requests (f : Frame) (connection : Connection) (body : Bytes) (parentRpc : UInt32)
    (method : CString) (rpcId : UInt32) : Prop where
  data : f.data = body
  signature : f.mark.signature = MARK_SIGNATURE
  header : f.header = {
    rpcId
    parent := parentRpc
    reqSendTimeUs := f.header.reqSendTimeUs
    reqRecvTimeUs := 0
    resSendTimeUs := 0
    resRecvTimeUs := 0
    clientIp := connection.clientIp
    serverIp := connection.serverIp
    clientPort := connection.clientPort
    serverPort := connection.serverPort
    reqLenLog := f.header.reqLenLog
    resLenLog := f.header.resLenLog
    messageType := .Request
    method := .fit 8 method.bytes
    status := .Ok
    pad := f.header.pad }

/-- The responses to a sequence of requests, in order, and the store that they leave. -/
inductive Served (ops : StoreOps κ) : κ → List Frame → List Frame → κ → Prop
  | nil (k : κ) : Served ops k [] [] k
  | cons {k k' k'' : κ} {request response : Frame} {requests responses : List Frame} :
      Handles ops k request response.header.status response.data k' → response.Answers request →
      Served ops k' requests responses k'' →
      Served ops k (request :: requests) (response :: responses) k''

/-- Where the clock does not go back, the response was sent after its request was received.  The
readings of the clock are in reverse order. -/
def Timed (clock : List UInt64) (response : Frame) : Prop :=
  clock.Pairwise (· ≥ ·) → response.header.reqRecvTimeUs ≤ response.header.resSendTimeUs

/-- The methods that the server knows. -/
def methods : List Bytes := [ascii "ping", ascii "write", ascii "read", ascii "quit"]

/-- The requests of a stream that are answered: all complete frames up to the first one that has
another header length or an unknown method, or that quits. -/
def handled (stream : Bytes) : List Frame :=
  match h : Frame.first stream with
  | none => []
  | some (request, rest) =>
    have : rest.length < stream.length := Frame.first_length_lt h
    if request.methodName ∈ methods then
      if request.methodName = ascii "quit" then [request] else request :: handled rest
    else []
termination_by stream.length

variable {ops : StoreOps κ} {k k' k'' : κ} {request response : Frame}
  {requests responses : List Frame}

theorem Handles.mem_methods {status : RpcStatus} {body : Bytes}
    (h : Handles ops k request status body k') : request.methodName ∈ methods := by
  cases h <;> simp_all [methods]

theorem Handles.length_lt {status : RpcStatus} {body : Bytes}
    (h : Handles ops k request status body k') : body.length < 2 ^ 32 := by
  cases h with
  | ping => exact request.dataLen_eq ▸ request.mark.dataLen.toNat_lt
  | @read value => exact value.2
  | _ => exact Nat.two_pow_pos 32

/-- When a request was received does not matter. -/
theorem Handles.of_reqReceived {now : UInt64} {status : RpcStatus} {body : Bytes}
    (h : Handles ops k (request.reqReceived now) status body k') :
    Handles ops k request status body k' := by
  cases h with
  | ping hname => exact .ping hname
  | write hname hparse hstore => exact .write hname hparse hstore
  | badWrite hname hparse => exact .badWrite hname hparse
  | read hname hstore => exact .read hname hstore
  | notFound hname hstore => exact .notFound hname hstore
  | quit hname => exact .quit hname

/-- The body of a write request is at least as long as its struct. -/
def Frame.LongEnough (request : Frame) : Prop :=
  request.methodName = ascii "write" → WriteRequest.size ≤ request.data.length

theorem Handles.eq_answer {keystore keystore' : Keystore} {status : RpcStatus} {body : Bytes}
    (h : Handles .alone keystore request status body keystore') (hlong : request.LongEnough) :
    keystore.answer request = (status, body, keystore') := by
  cases h with
  | ping hname => rw [Keystore.answer, if_pos hname]
  | write hname hparse hstore =>
    rw [Keystore.answer, if_neg (by rw [hname]; decide), if_pos hname, hparse (hlong hname), hstore]
  | badWrite hname hparse =>
    rw [Keystore.answer, if_neg (by rw [hname]; decide), if_pos hname, hparse (hlong hname)]
  | read hname hstore =>
    rw [Keystore.answer, if_neg (by rw [hname]; decide), if_neg (by rw [hname]; decide),
      if_pos hname, ← hstore.1, hstore.2]
  | notFound hname hstore =>
    rw [Keystore.answer, if_neg (by rw [hname]; decide), if_neg (by rw [hname]; decide),
      if_pos hname, ← hstore.1, hstore.2]
  | quit hname =>
    rw [Keystore.answer, if_neg (by rw [hname]; decide), if_neg (by rw [hname]; decide),
      if_neg (by rw [hname]; decide)]

/-- Each response carries the answer to its request on the keystore that the requests before it
have left. -/
theorem Served.eq_answers {keystore keystore' : Keystore}
    (h : Served .alone keystore requests responses keystore')
    (hlong : ∀ request ∈ requests, request.LongEnough) :
    keystore' = keystore.after requests ∧
    ∀ i (hi : i < requests.length) (hi' : i < responses.length),
      responses[i].Answers requests[i] ∧
      ((keystore.after (requests.take i)).answer requests[i]).1 = responses[i].header.status ∧
      ((keystore.after (requests.take i)).answer requests[i]).2.1 = responses[i].data := by
  induction h with
  | nil => exact ⟨rfl, fun i hi => absurd hi (Nat.not_lt_zero i)⟩
  | cons hhandles hanswers _ ih =>
    have hanswer := hhandles.eq_answer (hlong _ List.mem_cons_self)
    obtain ⟨hstore, hget⟩ := ih fun request h => hlong request (List.mem_cons_of_mem _ h)
    refine ⟨?_, fun i hi hi' => ?_⟩
    · rw [hstore, Keystore.after, Keystore.after, List.foldl_cons, hanswer]
    · cases i with
      | zero =>
        rw [List.take_zero, Keystore.after, List.foldl_nil]
        exact ⟨hanswers, by rw [List.getElem_cons_zero, hanswer, List.getElem_cons_zero],
          by rw [List.getElem_cons_zero, hanswer, List.getElem_cons_zero]⟩
      | succ i =>
        have h := hget i (by simpa using hi) (by simpa using hi')
        simpa [Keystore.after, hanswer] using h

theorem Served.length_eq (h : Served ops k requests responses k') :
    responses.length = requests.length := by
  induction h with
  | nil => rfl
  | cons _ _ _ ih => rw [List.length_cons, ih, List.length_cons]

theorem Served.one (h : Handles ops k request response.header.status response.data k')
    (hanswers : response.Answers request) : Served ops k [request] [response] k' :=
  .cons h hanswers (.nil k')

theorem handled_of_first {stream rest : Bytes} (h : Frame.first stream = some (request, rest)) :
    handled stream =
      if request.methodName ∈ methods then
        if request.methodName = ascii "quit" then [request] else request :: handled rest
      else [] := by
  rw [handled]
  split
  · simp_all
  · next heq =>
    rw [h] at heq
    cases heq
    rfl

theorem handled_of_none {stream : Bytes} (h : Frame.first stream = none) : handled stream = [] := by
  rw [handled]
  split <;> simp_all

end Specification

section Commands

variable {σ κ : Type} {env : Env SysOp SysOp.Result σ} {ops : StoreOps κ} {k : κ}
  {I : κ → σ → Prop} {s : σ} {connection : Connection} {message : Frame} {logFd : Fd}

/-- An operation that looks at memory which nothing has initialized. -/
def SysOp.LooksAtMemory : SysOp → Prop
  | .indeterminate _ => True
  | _ => False

theorem loadBody_only (body : Bytes) (i : Nat) : (loadBody body i).Only SysOp.LooksAtMemory := by
  unfold loadBody
  split_ifs
  · exact only_pure _
  · exact (only_perform trivial).map _

namespace WriteRequest

variable {load : Nat → Sys UInt8} {P : SysOp → Prop}

theorem valueLen_only (h : ∀ i, (load i).Only P) : (valueLen load).Only P :=
  (h 4).bind fun _ => (h 5).bind fun _ => (h 6).bind fun _ => (h 7).bind fun _ => only_pure _

theorem copy_only (h : ∀ i, (load i).Only P) (start n : Nat) : (copy load start n).Only P := by
  induction n generalizing start with
  | zero => exact only_pure _
  | succ n ih => exact (h start).bind fun _ => (ih (start + 1)).bind fun _ => only_pure _

theorem fromBody_only (h : ∀ i, (load i).Only P) (n : Nat) : (fromBody load n).Only P :=
  ((h 0).bind fun _ => (valueLen_only h).bind fun _ => only_pure _).bind fun _ => only_pure _

theorem key_only (h : ∀ i, (load i).Only P) : (key load).Only P :=
  (h 0).bind fun _ => (copy_only h _ _).bind fun _ => only_pure _

theorem value_only (h : ∀ i, (load i).Only P) : (value load).Only P :=
  (h 0).bind fun _ => (valueLen_only h).bind fun _ => (copy_only h _ _).bind fun _ => only_pure _

end WriteRequest

/-- The environment follows the store from `k` on, and keeps an invariant of it. -/
structure Keeps (env : Env SysOp SysOp.Result σ) (ops : StoreOps κ) (k : κ) (I : κ → σ → Prop) :
    Prop where
  indeterminate : ∀ n s, I k s → env.allows s (.indeterminate n) ∧
    ∀ r s', env.act s (.indeterminate n) r s' → I k s'
  emplace : ∀ key value s, I k s → env.allows s (.emplace key value) ∧
    ∀ r s', env.act s (.emplace key value) r s' → ∃ k', ops.emplace k key value k' ∧ I k' s'
  find : ∀ key s, I k s → env.allows s (.find key) ∧
    ∀ r s', env.act s (.find key) r s' → ∃ k', ops.find k key r k' ∧ I k' s'

theorem Keeps.wp_looks (h : Keeps env ops k I) {α : Type} {p : Sys α} (hI : I k s)
    (hp : p.Only SysOp.LooksAtMemory) : wp env p (fun _ => I k) s := by
  refine hp.wp (fun s op hop hI => ?_) hI
  cases op with
  | indeterminate n => exact h.indeterminate n s hI
  | _ => exact hop.elim

theorem Keeps.wp_handleRpcWrite (h : Keeps env ops k I) (hI : I k s) {Q : Unit → σ → Prop}
    (hwrite : message.methodName = ascii "write")
    (reply : ∀ status body k' s', Handles ops k message status body k' → I k' s' →
      wp env (respond connection message body status logFd) Q s') :
    wp env (handleRpcWrite connection message logFd) Q s := by
  by_cases hlen : WriteRequest.size ≤ message.data.length
  · rw [handleRpcWrite_eq hlen]
    cases hparse : WriteRequest.parse message.data with
    | none => exact reply _ _ k s (.badWrite hwrite fun _ => hparse) hI
    | some kv =>
      obtain ⟨hallows, hact⟩ := h.emplace kv.1 kv.2 s hI
      refine ⟨hallows, fun r s' hr => ?_⟩
      obtain ⟨k', hk, hI'⟩ := hact r s' hr
      exact reply _ _ k' s' (.write hwrite (fun _ => hparse) hk) hI'
  · have hload := loadBody_only message.data
    rw [handleRpcWrite, wp_bind]
    refine wp_mono (h.wp_looks hI (WriteRequest.fromBody_only hload _)) fun ok s hI => ?_
    cases ok with
    | false => exact reply _ _ k s (.badWrite hwrite fun h => absurd h hlen) hI
    | true =>
      simp only [if_true, wp_bind]
      refine wp_mono (h.wp_looks hI (WriteRequest.key_only hload)) fun key s hI => ?_
      rw [wp_bind]
      refine wp_mono (h.wp_looks hI (WriteRequest.value_only hload)) fun value s hI => ?_
      obtain ⟨hallows, hact⟩ := h.emplace key value s hI
      refine ⟨hallows, fun r s' hr => ?_⟩
      obtain ⟨k', hk, hI'⟩ := hact r s' hr
      exact reply _ _ k' s' (.write hwrite (fun h => absurd h hlen) hk) hI'

theorem Keeps.wp_handleRpcRead (h : Keeps env ops k I) (hI : I k s) {Q : Unit → σ → Prop}
    (hread : message.methodName = ascii "read")
    (reply : ∀ status body k' s', Handles ops k message status body k' → I k' s' →
      wp env (respond connection message body status logFd) Q s') :
    wp env (handleRpcRead connection message logFd) Q s := by
  obtain ⟨hallows, hact⟩ := h.find message.data s hI
  refine ⟨hallows, fun r s' hr => ?_⟩
  obtain ⟨k', hk, hI'⟩ := hact r s' hr
  cases r with
  | some value => exact reply _ _ k' s' (.read hread hk) hI'
  | none => exact reply _ _ k' s' (.notFound hread hk) hI'

/-- What the loop does after a known request. -/
def Frame.action (message : Frame) : Option RpcAction :=
  if message.methodName = ascii "quit" then some .QUIT else none

/-- A request is answered as it should be, or its method is unknown. -/
theorem Keeps.wp_processCommand (h : Keeps env ops k I) (hI : I k s)
    {Q : Option RpcAction → σ → Prop}
    (reply : ∀ status body k' s', Handles ops k message status body k' → I k' s' →
      wp env (respond connection message body status logFd) (fun _ => Q message.action) s')
    (unknown : message.methodName ∉ methods → Q (some .CONTINUE) s) :
    wp env (processCommand connection message logFd) Q s := by
  rw [processCommand_eq]
  have goesOn (hne : message.methodName ≠ ascii "quit") : message.action = none := if_neg hne
  split_ifs with hping hwrite hread hquit <;> try rw [wp_bind]
  · rw [goesOn (by rw [hping]; decide)] at reply
    exact reply _ _ k s (.ping hping) hI
  · rw [goesOn (by rw [hwrite]; decide)] at reply
    exact h.wp_handleRpcWrite hI hwrite reply
  · rw [goesOn (by rw [hread]; decide)] at reply
    exact h.wp_handleRpcRead hI hread reply
  · rw [Frame.action, if_pos hquit] at reply
    exact reply _ _ k s (.quit hquit) hI
  · exact unknown (by simp [methods, hping, hwrite, hread, hquit])

end Commands

end SoftwareDynamics.Network

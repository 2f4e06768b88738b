import SoftwareDynamics.Network.Footprint
import SoftwareDynamics.Network.History

/-! The requests that the listener threads have processed over a run, in the order of their blocks.
They determine the keystore, key by key: what is read under a key depends on the well-formed writes
of that key alone. -/

namespace SoftwareDynamics.Network

open ProofKit Prog

section Requests

/-- The key and the value that a well-formed write request writes. -/
def Frame.entry (request : Frame) : Option (Bytes × Value) :=
  if request.is "write" then
    (WriteRequest.parse request.data).map fun entry => (entry.1.1, entry.2)
  else none

/-- The values that the well-formed write requests for a key write, in their order. -/
def writesOf (key : Bytes) (requests : List Frame) : List Value :=
  (requests.filterMap Frame.entry).filterMap fun entry =>
    if entry.1 = key then some entry.2 else none

theorem lookup_eq_head (key : Bytes) (entries : List (Bytes × Value)) :
    entries.lookup key =
      (entries.filterMap fun entry => if entry.1 = key then some entry.2 else none).head? := by
  induction entries with
  | nil => rfl
  | cons entry entries ih =>
    obtain ⟨k, v⟩ := entry
    by_cases hk : k = key
    · simp [hk]
    · rw [List.lookup_cons, beq_eq_false_iff_ne.mpr (Ne.symm hk), ih,
        List.filterMap_cons_none (by simp [hk])]

end Requests

section Blocks

/-- The operation is a block on the keystore. -/
def SysOp.IsBlock : SysOp → Prop
  | .emplace _ _ | .find _ => True
  | _ => False

/-- What follows a round of the loop of `handle_rpc_conn`. -/
def endRound (listenSockFd logFd : Fd) (connection : Connection) : Option RpcAction → Sys ListenPc
  | none => return .serve listenSockFd logFd connection
  | some action => do
    let _ ← sys (.close connection.sockFd)
    match action with
    | .CONTINUE => return .accept listenSockFd logFd
    | .QUIT => return .closing listenSockFd logFd

/-- A listener thread that is about to process a request. -/
def atCommand (listenSockFd logFd : Fd) (connection : Connection) (request : Frame) :
    Sys ListenPc :=
  processCommand connection request logFd >>= endRound listenSockFd logFd connection

variable {listenSockFd logFd : Fd} {connection : Connection} {request : Frame}

theorem listenCode_serve (port : Int32) :
    listenCode port (.serve listenSockFd logFd connection) =
      rpcRecvReq connection >>= fun message =>
        match message with
        | none => endRound listenSockFd logFd connection (some .CONTINUE)
        | some message => log logFd message.message >>= fun _ =>
          atCommand listenSockFd logFd connection message := by
  simp only [listenCode, serveMessage, bind_assoc]
  congr 1
  funext message
  cases message with
  | none => rfl
  | some message =>
    simp only [bind_assoc]
    congr 1

theorem endRound_only (action : Option RpcAction) :
    (endRound listenSockFd logFd connection action).Only (¬·.IsBlock) := by
  cases action with
  | none => exact only_pure _
  | some action =>
    refine (only_perform nofun).bind fun _ => ?_
    cases action <;> exact only_pure _

theorem respond_endRound_only (body : Bytes) (status : RpcStatus) (action : Option RpcAction) :
    (respond connection request body status logFd >>= fun _ =>
      endRound listenSockFd logFd connection action).Only (¬·.IsBlock) :=
  (respond_only (fun _ => nofun) (fun _ => nofun) nofun (fun _ => nofun) _ _ _).bind fun _ =>
    endRound_only action

theorem size_le_of_parse {key : Key} {value : Value}
    (hparse : WriteRequest.parse request.data = some (key, value)) :
    WriteRequest.size ≤ request.data.length := by
  unfold WriteRequest.parse at hparse
  split_ifs at hparse with hlen
  omega

/-- What a thread does that is about to process a well-formed write. -/
theorem atCommand_write (hwrite : request.is "write") {key : Key} {value : Value}
    (hparse : WriteRequest.parse request.data = some (key, value)) :
    atCommand listenSockFd logFd connection request = .call (.emplace key value) fun _ =>
      respond connection request [] .Ok logFd >>= fun _ =>
        endRound listenSockFd logFd connection none := by
  have hname := (request.is_iff (by decide) (by decide)).mp hwrite
  rw [atCommand, processCommand_eq, if_neg (by rw [hname]; decide), if_pos hname,
    handleRpcWrite_eq (size_le_of_parse hparse), hparse, bind_assoc]
  rfl

/-- What a thread does that is about to process a read. -/
theorem atCommand_read (hread : request.is "read") :
    atCommand listenSockFd logFd connection request = .call (.find request.data) fun result =>
      (match result with
      | some result => respond connection request result.1 .Ok logFd
      | none => respond connection request [] .NotFound logFd) >>= fun _ =>
        endRound listenSockFd logFd connection none := by
  have hname := (request.is_iff (by decide) (by decide)).mp hread
  rw [atCommand, processCommand_eq, if_neg (by rw [hname]; decide), if_neg (by rw [hname]; decide),
    if_pos hname, bind_assoc]
  congr 1

/-- What a thread does that is about to process a request: the block of a well-formed write, or of
a read, and nothing but operations that are no blocks. -/
theorem atCommand_cases (hlong : request.is "write" → WriteRequest.size ≤ request.data.length) :
    (∃ key value, request.entry = some (key.1, value) ∧
      atCommand listenSockFd logFd connection request = .call (.emplace key value) fun _ =>
        respond connection request [] .Ok logFd >>= fun _ =>
          endRound listenSockFd logFd connection none) ∨
    request.entry = none ∧ (request.is "read" ∨
      (atCommand listenSockFd logFd connection request).Only (¬·.IsBlock)) := by
  have hwrite : request.is "write" ↔ request.methodName = ascii "write" :=
    request.is_iff (by decide) (by decide)
  have hread : request.is "read" ↔ request.methodName = ascii "read" :=
    request.is_iff (by decide) (by decide)
  have hentry (hname : request.methodName ≠ ascii "write") : request.entry = none :=
    if_neg (mt hwrite.mp hname)
  by_cases hget : request.methodName = ascii "read"
  · exact .inr ⟨hentry (by rw [hget]; decide), .inl (hread.mpr hget)⟩
  by_cases hping : request.methodName = ascii "ping"
  · rw [atCommand, processCommand_eq, if_pos hping, bind_assoc]
    exact .inr ⟨hentry (by rw [hping]; decide), .inr (respond_endRound_only request.data .Ok none)⟩
  by_cases hname : request.methodName = ascii "write"
  · have hentry : request.entry = _ := if_pos (hwrite.mpr hname)
    cases hparse : WriteRequest.parse request.data with
    | none =>
      rw [atCommand, processCommand_eq, if_neg hping, if_pos hname,
        handleRpcWrite_eq (hlong (hwrite.mpr hname)), bind_assoc, hparse]
      rw [hparse] at hentry
      exact .inr ⟨hentry, .inr (respond_endRound_only [] .BadArg none)⟩
    | some entry =>
      rw [hparse] at hentry
      exact .inl ⟨entry.1, entry.2, hentry, atCommand_write (hwrite.mpr hname) hparse⟩
  rw [atCommand, processCommand_eq, if_neg hping, if_neg hname, if_neg hget]
  refine .inr ⟨hentry hname, .inr ?_⟩
  split_ifs
  · rw [bind_assoc]
    exact respond_endRound_only [] .Ok (some .QUIT)
  · exact endRound_only (some .CONTINUE)

end Blocks

section Runs

variable {T : Type} [DecidableEq T] {port : T → Int32} {c c' : StoreConfig T}
    {requests : List Frame}

/-- A run from the server's start in which the listener threads have processed these requests, in
the order in which they ran their blocks or started to answer.  Each write request is of the size
of its fixed part at least. -/
inductive Processed (port : T → Int32) : StoreConfig T → List Frame → Prop
  | init : Processed port (serverInit T) []
  | command {c c' : StoreConfig T} {requests : List Frame} {t : T} {listenSockFd logFd : Fd}
      {connection : Connection} {request : Frame} : Processed port c requests →
      c.own t = atCommand listenSockFd logFd connection request →
      (request.is "write" → WriteRequest.size ≤ request.data.length) →
      (listeners port).Step t c c' → Processed port c' (requests ++ [request])
  | other {c c' : StoreConfig T} {requests : List Frame} {t : T} : Processed port c requests →
      (∀ op k, c.own t = .call op k → ¬op.IsBlock) →
      (listeners port).Step t c c' → Processed port c' requests

/-- A step that is no block leaves the store as it is. -/
theorem shared_of_not_block {t : T} (h : ∀ op k, c.own t = .call op k → ¬op.IsBlock)
    (hstep : (listeners port).Step t c c') : c'.shared = c.shared := by
  obtain ⟨p, s, hmove, rfl⟩ := hstep
  rcases store_step hmove with ⟨key, value, k, hown, -⟩ | rfl
  · exact absurd trivial (h _ _ hown)
  · rfl

theorem not_block_of_only {p : Sys ListenPc} (h : p.Only (¬·.IsBlock)) :
    ∀ op k, p = .call op k → ¬op.IsBlock := by
  rintro op k rfl
  exact h.1

/-- Each request has added its entry to the store, and nothing else has. -/
theorem Processed.history_eq (h : Processed port c requests) :
    c.shared.history.reverse = requests.filterMap Frame.entry := by
  induction h with
  | init => rfl
  | @command c c' requests t listenSockFd logFd connection request _ hown hlong hstep ih =>
    rw [List.filterMap_append, ← ih]
    rcases atCommand_cases hlong with ⟨key, value, hentry, hcode⟩ | ⟨hentry, hread | honly⟩
    · obtain ⟨r, s, rfl, rfl⟩ := hstep.of_call (hown.trans hcode)
      simp [Store.write, hentry]
    · obtain ⟨r, s, ⟨-, rfl⟩, rfl⟩ := hstep.of_call (hown.trans (atCommand_read hread))
      simp [hentry]
    · rw [shared_of_not_block (hown ▸ not_block_of_only honly) hstep]
      simp [hentry]
  | other _ hother hstep ih => rw [shared_of_not_block hother hstep, ih]

theorem Processed.runs (h : Processed port c requests) :
    (listeners port).Runs (fun _ _ => True) (serverInit T) c := by
  induction h with
  | init => exact .refl
  | command _ _ _ hstep ih => exact ih.tail ⟨_, hstep, trivial⟩
  | other _ _ hstep ih => exact ih.tail ⟨_, hstep, trivial⟩

/-- The keystore has the value of the first well-formed write of a key. -/
theorem Processed.lookup_eq (h : Processed port c requests) (key : Bytes) :
    c.shared.keystore.lookup key = (writesOf key requests).head? := by
  rw [lookup_eq_first h.runs, h.history_eq, lookup_eq_head, writesOf]

/-- Code in which each block belongs to a request. -/
inductive Orderly : Sys ListenPc → Prop
  | only {p : Sys ListenPc} : p.Only (¬·.IsBlock) → Orderly p
  | call {op : SysOp} {k : op.Result → Sys ListenPc} : ¬op.IsBlock → (∀ r, Orderly (k r)) →
      Orderly (.call op k)
  | command {p : Sys ListenPc} (listenSockFd logFd : Fd) (connection : Connection)
      (request : Frame) : p = atCommand listenSockFd logFd connection request → Orderly p

theorem Orderly.bind {α : Type} {p : Sys α} (hp : p.Only (¬·.IsBlock)) {f : α → Sys ListenPc}
    (hf : ∀ a, Orderly (f a)) : Orderly (p >>= f) := by
  induction p with
  | ret a => exact hf a
  | call op k ih => exact .call hp.1 fun r => ih r (hp.2 r)

theorem SysOp.Opening.not_block {op : SysOp} (h : op.Opening) : ¬op.IsBlock := by
  cases op <;> first | exact h.elim | exact nofun

theorem SysOp.Receiving.not_block {op : SysOp} {sock : Fd} (h : op.Receiving sock) :
    ¬op.IsBlock := by
  cases op <;> first | exact h.elim | exact nofun

theorem listenCode_only (port : Int32) {pc : ListenPc}
    (h : ∀ listenSockFd logFd connection, pc ≠ .serve listenSockFd logFd connection) :
    (listenCode port pc).Only (¬·.IsBlock) := by
  cases pc with
  | start =>
    refine ((tcpListen_only _ _).mono fun _ => SysOp.Opening.not_block).bind fun r => ?_
    cases r with
    | error err => exact only_pure _
    | ok listenSockFd =>
      have hcreat : ¬(SysOp.creat (serverLogFn port)).IsBlock := nofun
      refine (only_perform (P := fun op : SysOp => ¬op.IsBlock) hcreat).bind fun logFd => ?_
      cases logFd <;> exact only_pure _
  | accept listenSockFd logFd =>
    refine ((only_perform nofun).map _).bind fun connection => ?_
    exact ((tcpAccept_only _ _).mono fun _ => SysOp.Opening.not_block).bind fun _ => only_pure _
  | serve listenSockFd logFd connection => exact absurd rfl (h _ _ _)
  | closing listenSockFd logFd =>
    exact (only_perform nofun).bind fun _ => (only_perform nofun).bind fun _ => only_pure _
  | returned => exact only_pure _
  | exited => exact only_pure _

theorem orderly_listenCode (port : Int32) (pc : ListenPc) : Orderly (listenCode port pc) := by
  cases pc with
  | serve listenSockFd logFd connection =>
    rw [listenCode_serve]
    refine .bind ((recvStamped_only connection _).mono fun _ => SysOp.Receiving.not_block)
      fun message => ?_
    cases message with
    | none => exact .only (endRound_only _)
    | some message => exact .bind (log_only (fun _ => nofun) _) fun _ => .command _ _ _ _ rfl
  | _ => exact .only (listenCode_only port nofun)

/-- The threads process no write request that is shorter than its fixed part. -/
def LongWrites (t : T) (c : StoreConfig T) : Prop :=
  ∀ listenSockFd logFd connection request,
    c.own t = atCommand listenSockFd logFd connection request → request.is "write" →
    WriteRequest.size ≤ request.data.length

/-- What is left of the code of a request behind its first operation is no block. -/
theorem orderly_of_command {listenSockFd logFd : Fd} {connection : Connection} {request : Frame}
    (hlong : request.is "write" → WriteRequest.size ≤ request.data.length) {op : SysOp}
    {k : op.Result → Sys ListenPc}
    (h : atCommand listenSockFd logFd connection request = .call op k) (r : op.Result) :
    Orderly (k r) := by
  rcases atCommand_cases hlong with ⟨key, value, -, hcode⟩ | ⟨-, hread | honly⟩
  · rw [hcode] at h
    cases h
    exact .only (respond_endRound_only [] .Ok none)
  · rw [atCommand_read hread] at h
    cases h
    refine .only ?_
    cases r with
    | none => exact respond_endRound_only [] .NotFound none
    | some value => exact respond_endRound_only value.1 .Ok none
  · rw [h] at honly
    exact .only (honly.2 r)

theorem Orderly.not_block_or_command {p : Sys ListenPc} (h : Orderly p) :
    (∀ op k, p = .call op k → ¬op.IsBlock) ∨ ∃ listenSockFd logFd connection request,
      p = atCommand listenSockFd logFd connection request := by
  cases h with
  | only honly => exact .inl (not_block_of_only honly)
  | call hop _ =>
    left
    rintro op k heq
    cases heq
    exact hop
  | command l f connection request heq => exact .inr ⟨l, f, connection, request, heq⟩

theorem Orderly.next {port : Int32} {p p' : Sys ListenPc} {s s' : Store} (h : Orderly p)
    (hlong : ∀ listenSockFd logFd connection request,
      p = atCommand listenSockFd logFd connection request → request.is "write" →
      WriteRequest.size ≤ request.data.length)
    (hstep : (rpcListen port).Step storeEnv (p, s) (p', s')) : Orderly p' := by
  cases hstep with
  | @round pc => exact orderly_listenCode port pc
  | @call op k r =>
    cases h with
    | only honly => exact .only (honly.2 r)
    | call _ hrest => exact hrest r
    | command l f connection request heq =>
      exact orderly_of_command (hlong _ _ _ _ heq) heq.symm r

/-- Every run in which no write request is too short processes some requests, and nothing else runs
a block in it. -/
theorem exists_processed (hrun : (listeners port).Runs LongWrites (serverInit T) c) :
    ∃ requests, Processed port c requests := by
  suffices h : (∃ requests, Processed port c requests) ∧ ∀ t, Orderly (c.own t) by exact h.1
  refine hrun.invariant (I := fun c => (∃ requests, Processed port c requests) ∧
    ∀ t, Orderly (c.own t)) ?_ ⟨⟨[], .init⟩, fun t => .only (only_pure _)⟩
  rintro t c p s ⟨⟨requests, hprocessed⟩, horderly⟩ hlong hmove
  have hstep : (listeners port).Step t c (c.set t p s) := ⟨p, s, hmove, rfl⟩
  constructor
  · rcases (horderly t).not_block_or_command with hother | ⟨l, f, connection, request, hown⟩
    · exact ⟨_, hprocessed.other hother hstep⟩
    · exact ⟨_, hprocessed.command hown (hlong _ _ _ _ hown) hstep⟩
  · intro u
    by_cases hut : u = t
    · subst hut
      rw [Config.set_own_self]
      exact (horderly u).next hlong hmove
    · rw [Config.set_own_of_ne c hut]
      exact horderly u

/-- A read of `key` that is processed next is answered with this status and this body. -/
def ReadAs (port : T → Int32) (c : StoreConfig T) (key : Bytes) (status : RpcStatus)
    (body : Bytes) :
    Prop :=
  ∀ t listenSockFd logFd connection request c',
    c.own t = atCommand listenSockFd logFd connection request → request.is "read" →
    request.data = key → (listeners port).Step t c c' →
    c' = c.set t (respond connection request body status logFd >>= fun _ =>
      endRound listenSockFd logFd connection none) c.shared

theorem Processed.readAs (h : Processed port c requests) (key : Bytes) :
    match (writesOf key requests).head? with
    | some value => ReadAs port c key .Ok value.1
    | none => ReadAs port c key .NotFound [] := by
  have hlookup := h.lookup_eq key
  split
  all_goals
    rename_i hhead
    rintro t listenSockFd logFd connection request c' hown hread rfl hstep
    obtain ⟨r, s, ⟨rfl, rfl⟩, rfl⟩ := hstep.of_call (hown.trans (atCommand_read hread))
    rw [hlookup, hhead]

end Runs

section Isolation

variable {T T' : Type} [DecidableEq T] [DecidableEq T']

/-- After any two runs in which the same values have been written under a key, in the same order, by
well-formed write requests, a read of the key gets the same status and the same body. -/
theorem read_isolated {port : T → Int32} {port' : T' → Int32} {c : StoreConfig T}
    {c' : StoreConfig T'} {requests requests' : List Frame} (h : Processed port c requests)
    (h' : Processed port' c' requests') {key : Bytes}
    (hsame : writesOf key requests = writesOf key requests') :
    ∃ status body, ReadAs port c key status body ∧ ReadAs port' c' key status body := by
  have hread := h.readAs key
  have hread' := h'.readAs key
  rw [← hsame] at hread'
  cases hhead : (writesOf key requests).head? with
  | none =>
    rw [hhead] at hread hread'
    exact ⟨_, _, hread, hread'⟩
  | some value =>
    rw [hhead] at hread hread'
    exact ⟨_, _, hread, hread'⟩

end Isolation

section Example

variable {T : Type} [DecidableEq T] {port : T → Int32} {c : StoreConfig T} {requests : List Frame}
  {t : T}

/-- While the others rest, a thread may execute a part of its code that has no blocks. -/
theorem Processed.exec {α : Type} {p : Sys α} {k : α → Sys ListenPc} {a : α} {s s' : Store}
    (hexec : Exec storeEnv p s a s') (h : Processed port c requests) (hown : c.own t = p >>= k)
    (hshared : c.shared = s) (honly : p.Only (¬·.IsBlock)) :
    Processed port (c.set t (k a) s') requests := by
  induction hexec generalizing c with
  | ret a s =>
    rw [← hshared, show k a = c.own t from hown.symm, Config.set_own_eq]
    exact h
  | @call op f r s s' _ _ hact _ ih =>
    subst hshared
    have hcall : c.own t = .call op fun r => f r >>= k := hown
    have hmove : (listeners port).move t (c.own t, c.shared) (f r >>= k, s') := by
      rw [hcall]
      exact .call hact
    have hother : ∀ op k, c.own t = .call op k → ¬op.IsBlock := by
      rintro op k heq
      cases hcall.symm.trans heq
      exact honly.1
    have hnext := ih (h.other hother ⟨_, _, hmove, rfl⟩) (Config.set_own_self _ _ _ _) rfl
      (honly.2 r)
    rwa [Config.set_set] at hnext

theorem Processed.enter {pc : ListenPc} (h : Processed port c requests) (hown : c.own t = .ret pc)
    (hgo : pc.over = false) :
    Processed port (c.set t (listenCode (port t) pc) c.shared) requests := by
  have hmove : (listeners port).move t (c.own t, c.shared) (listenCode (port t) pc, c.shared) := by
    rw [hown]
    exact .round hgo
  refine h.other (fun op k hcall => ?_) ⟨_, _, hmove, rfl⟩
  rw [hown] at hcall
  cases hcall

/-- A thread that serves a connection may come to process any request. -/
theorem Processed.ready (h : Processed port c requests)
    (hown : c.own t = .ret (.serve 3 4 sampleConnection)) {f : Frame}
    (hf : f.header.reqRecvTimeUs = 0) :
    Processed port (c.set t (atCommand 3 4 sampleConnection f) c.shared) requests := by
  have hrecv := (storeEnv_open c.shared).exec_rpcRecvReq sampleConnection f
  rw [← hf, Frame.reqReceived_self] at hrecv
  have henter := h.enter hown rfl
  rw [listenCode_serve] at henter
  have hreceived := henter.exec hrecv (Config.set_own_self _ _ _ _) rfl
    ((recvStamped_only sampleConnection _).mono fun _ => SysOp.Receiving.not_block)
  rw [Config.set_set] at hreceived
  have hlogged := hreceived.exec (exec_log (storeEnv_absorbs c.shared 4) f.message)
    (Config.set_own_self _ _ _ _) rfl (log_only (fun _ => nofun) _)
  rwa [Config.set_set] at hlogged

/-- A thread that serves a connection may process any well-formed write. -/
theorem Processed.write (h : Processed port c requests)
    (hown : c.own t = .ret (.serve 3 4 sampleConnection)) {f : Frame} (key : Key) (value : Value)
    (hf : f.header.reqRecvTimeUs = 0) (hwrite : f.is "write")
    (hparse : WriteRequest.parse f.data = some (key, value)) :
    Processed port (c.set t (.ret (.serve 3 4 sampleConnection)) (c.shared.write key.1 value))
      (requests ++ [f]) := by
  have hready := h.ready hown hf
  have hmove : (listeners port).move t (atCommand 3 4 sampleConnection f, c.shared)
      (respond sampleConnection f [] .Ok 4 >>= fun _ => .ret (.serve 3 4 sampleConnection),
        c.shared.write key.1 value) := by
    rw [atCommand_write hwrite hparse]
    exact Process.Step.call (show storeEnv.act _ (.emplace key value) () _ from rfl)
  have hwritten := hready.command (Config.set_own_self _ _ _ _)
    (fun _ => size_le_of_parse hparse)
    ⟨_, _, by rw [Config.set_own_self, Config.set_shared]; exact hmove, rfl⟩
  rw [Config.set_set] at hwritten
  obtain ⟨-, hrespond⟩ := (storeEnv_open (c.shared.write key.1 value)).exec_respond f
    (show ([] : Bytes).length < 2 ^ 32 by decide) .Ok (fun _ => c.shared.write key.1 value)
    fun f _ => ⟨_, exec_sendMessage (storeEnv_absorbs _ _ _) (storeEnv_absorbs _ _ _)
      (storeEnv_absorbs _ _)⟩
  have hanswered := hwritten.exec hrespond (Config.set_own_self _ _ _ _) rfl
    (respond_only (fun _ => nofun) (fun _ => nofun) nofun (fun _ => nofun) _ _ _)
  rwa [Config.set_set] at hanswered

/-- A thread may come to serve a connection. -/
theorem processed_serving (port : T → Int32) (t : T) :
    Processed port ((serverInit T).set t (.ret (.serve 3 4 sampleConnection)) ⟨∅, []⟩) [] := by
  have hround {c : StoreConfig T} {pc pc' : ListenPc} (h : Processed port c [])
      (hown : c.own t = .ret pc) (hshared : c.shared = ⟨∅, []⟩) (hgo : pc.over = false)
      (hexec : Exec storeEnv (listenCode (port t) pc) ⟨∅, []⟩ pc' ⟨∅, []⟩)
      (honly : (listenCode (port t) pc).Only (¬·.IsBlock)) :
      Processed port (c.set t (.ret pc') ⟨∅, []⟩) [] := by
    have hnext := (h.enter hown hgo).exec hexec
      (by rw [Config.set_own_self, bind_ret]) hshared honly
    rwa [Config.set_set] at hnext
  have hstart := hround .init rfl rfl rfl (exec_start (port t) _) (listenCode_only _ nofun)
  have haccept := hround hstart (Config.set_own_self _ _ _ _) rfl rfl (exec_accept (port t) _)
    (listenCode_only _ nofun)
  rwa [Config.set_set] at haccept

/-- A key is written, in one run after a key that it extends, and then read. -/
theorem read_isolated_prefix : ∃ (c c' : StoreConfig Unit) (request : Frame) (status : RpcStatus)
    (body : Bytes), c.shared ≠ c'.shared ∧ request.is "read" ∧
    c.own () = atCommand 3 4 sampleConnection request ∧
    c'.own () = atCommand 3 4 sampleConnection request ∧
    ReadAs (fun _ => 12345) c request.data status body ∧
    ReadAs (fun _ => 12345) c' request.data status body := by
  let first := Frame.request (ascii "write") [1, 0, 0, 0, 0, 0, 0, 1, 107, 1] (by decide)
  let second := Frame.request (ascii "write") [2, 0, 0, 0, 0, 0, 0, 1, 107, 0, 2] (by decide)
  let read := Frame.request (ascii "read") [107, 0] (by decide)
  have hserving := processed_serving (fun _ => 12345) ()
  have hfirst := hserving.write (f := first) (Config.set_own_self _ _ _ _) ⟨[107], by decide⟩
    ⟨[1], by decide⟩ rfl (by decide) (by decide)
  have hboth := hfirst.write (f := second) (Config.set_own_self _ _ _ _) ⟨[107, 0], by decide⟩
    ⟨[2], by decide⟩ rfl (by decide) (by decide)
  have hsecond := hserving.write (f := second) (Config.set_own_self _ _ _ _) ⟨[107, 0], by decide⟩
    ⟨[2], by decide⟩ rfl (by decide) (by decide)
  have hsame : writesOf [107, 0] ([first] ++ [second]) = writesOf [107, 0] [second] := by decide
  obtain ⟨status, body, hread⟩ := read_isolated
    (hboth.ready (f := read) (Config.set_own_self _ _ _ _) rfl)
    (hsecond.ready (f := read) (Config.set_own_self _ _ _ _) rfl) hsame
  refine ⟨_, _, read, status, body, fun heq => ?_, by decide, Config.set_own_self _ _ _ _,
    Config.set_own_self _ _ _ _, hread⟩
  exact absurd (congrArg (·.history.length) heq) (by decide)

end Example

end SoftwareDynamics.Network

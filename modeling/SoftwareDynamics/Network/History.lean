import SoftwareDynamics.Network.Server
import SoftwareDynamics.ProofKit.Threads

/-! The keystore over whole runs of the server, with any number of listener threads.  A run keeps
the history of the writes whose blocks have run, against which its reads are answered. -/

namespace SoftwareDynamics.Network

open ProofKit Prog

section System

/-- The keystore, and the keys and values of the write requests whose blocks have run on it, the
most recent one first. -/
structure Store where
  keystore : Keystore
  history : List (Bytes × Value)

/-- The store after the block of a write request. -/
def Store.write (s : Store) (key : Bytes) (value : Value) : Store :=
  ⟨s.keystore.emplace key value, (key, value) :: s.history⟩

/-- The value of the most recent write of a key. -/
def Store.latest (s : Store) (key : Bytes) : Option Value := s.history.lookup key

/-- The blocks act on the store, each in one step.  Every other operation may have any result. -/
def storeEnv : Env SysOp SysOp.Result Store where
  allows _ _ := True
  act s op r s' :=
    match op, r with
    | .emplace key value, _ => s' = s.write key.1 value
    | .find key, r => r = s.keystore.lookup key ∧ s' = s
    | _, _ => s' = s

variable {T : Type}

/-- The listener threads' code in progress, and the store. -/
abbrev StoreConfig (T : Type) := Config T (fun _ => Sys ListenPc) Store

/-- The listener threads of the server, one for each port. -/
def listeners (port : T → Int32) : Threads T (fun _ => Sys ListenPc) Store :=
  .ofProcess (fun t => rpcListen (port t)) fun _ => storeEnv

/-- Every thread is at its start, and nothing has been written. -/
def serverInit (T : Type) : StoreConfig T := ⟨fun _ => .ret .start, ⟨∅, []⟩⟩

/-- No key has been written with two different values. -/
def Store.Consistent (s : Store) : Prop :=
  ∀ key v v', (key, v) ∈ s.history → (key, v') ∈ s.history → v = v'

end System

section Steps

variable {T : Type} {port : Int32} {p p' : Sys ListenPc} {s s' : Store}

/-- A step of a thread writes to the store what the block of a write request writes, or leaves the
store as it is. -/
theorem store_step (h : (rpcListen port).Step storeEnv (p, s) (p', s')) :
    (∃ key value k, p = .call (.emplace key value) k ∧ s' = s.write key.1 value) ∨ s' = s := by
  cases h with
  | round => exact .inr rfl
  | @call op k r _ _ hact =>
    cases op with
    | emplace key value => exact .inl ⟨key, value, k, rfl, hact⟩
    | find key => exact .inr hact.2
    | _ => exact .inr hact

end Steps

section Runs

variable {T : Type} [DecidableEq T] {port : T → Int32} {c : StoreConfig T}

/-- The keystore has the value of the first write of a key, whatever has been written since. -/
theorem lookup_eq_first (hrun : (listeners port).Runs (fun _ _ => True) (serverInit T) c)
    (key : Bytes) : c.shared.keystore.lookup key = c.shared.history.reverse.lookup key := by
  refine hrun.invariant
    (I := fun c => ∀ key, c.shared.keystore.lookup key = c.shared.history.reverse.lookup key)
    (fun t c p s hinv _ hmove key => ?_) (fun key => rfl) key
  rcases store_step hmove with ⟨k, v, cont, -, rfl⟩ | rfl
  · simp only [Config.set_shared, Store.write, Keystore.lookup_emplace, List.reverse_cons,
      List.lookup_append, hinv key, List.lookup_cons, List.lookup_nil]
    by_cases hk : key = k
    · simp [hk]
    · rw [if_neg hk, beq_eq_false_iff_ne.mpr hk]
  · exact hinv key

theorem Store.Consistent.latest_eq {s : Store} (h : s.Consistent) (key : Bytes) :
    s.latest key = s.history.reverse.lookup key := by
  cases hlatest : s.latest key with
  | none =>
    refine (List.lookup_eq_none_iff.mpr fun kv hkv => ?_).symm
    exact List.lookup_eq_none_iff.mp hlatest kv (List.mem_reverse.mp hkv)
  | some v =>
    have hmem {l : List (Bytes × Value)} {w : Value} (hw : l.lookup key = some w) :
        (key, w) ∈ l := by
      obtain ⟨l₁, l₂, rfl, -⟩ := List.lookup_eq_some_iff.mp hw
      simp
    cases hfirst : s.history.reverse.lookup key with
    | none =>
      have hnone := List.lookup_eq_none_iff.mp hfirst (key, v) (List.mem_reverse.mpr (hmem hlatest))
      simp at hnone
    | some w => rw [h key v w (hmem hlatest) (List.mem_reverse.mp (hmem hfirst))]

/-- In every run in which no key is written with two different values, no write is lost: a read is
answered with the value of the most recent write of its key, or with `NotFound` if there is none. -/
theorem read_most_recent (hrun : (listeners port).Runs (fun _ _ => True) (serverInit T) c)
    (hconsistent : c.shared.Consistent) :
    (∀ key, c.shared.keystore.lookup key = c.shared.latest key) ∧
    (∀ t connection request logFd rest c',
      c.own t = handleRpcRead connection request logFd >>= rest → (listeners port).Step t c c' →
      c' = c.set t ((match c.shared.latest request.data with
        | some value => respond connection request value.1 .Ok logFd
        | none => respond connection request [] .NotFound logFd) >>= rest) c.shared) ∧
    (∀ t connection request logFd rest c',
      c.own t = handleRpcWrite connection request logFd >>= rest →
      WriteRequest.size ≤ request.data.length →
      match WriteRequest.parse request.data with
      | some (key, value) => (listeners port).Step t c c' →
        c' = c.set t (respond connection request [] .Ok logFd >>= rest) (c.shared.write key.1 value)
      | none => c.own t = respond connection request [] .BadArg logFd >>= rest) := by
  have hlookup : ∀ key, c.shared.keystore.lookup key = c.shared.latest key := fun key =>
    (lookup_eq_first hrun key).trans (hconsistent.latest_eq key).symm
  refine ⟨hlookup, fun t connection request logFd rest c' hown hstep => ?_,
    fun t connection request logFd rest c' hown hlen => ?_⟩
  · obtain ⟨r, s, ⟨rfl, rfl⟩, rfl⟩ := hstep.of_call hown
    rw [hlookup]
    cases c.shared.latest request.data <;> rfl
  · rw [handleRpcWrite_eq hlen] at hown
    cases hparse : WriteRequest.parse request.data with
    | none => simpa [hparse] using hown
    | some kv =>
      obtain ⟨key, value⟩ := kv
      intro hstep
      simp only [hparse] at hown
      obtain ⟨r, s, rfl, rfl⟩ := hstep.of_call hown
      rfl

end Runs

section Overwrite

theorem storeEnv_open (s : Store) : Open storeEnv s :=
  ⟨fun _ _ _ => rfl, fun _ _ => rfl, fun _ => rfl, fun _ _ => rfl⟩

theorem storeEnv_absorbs (s : Store) (fd : Fd) : Absorbs storeEnv s fd := fun _ => rfl

/-- The connection that a listener serves once it has accepted one. -/
def sampleConnection : Connection := ⟨5, 0, 0, 0, 0⟩

/-- A listener may open its socket and its log. -/
theorem exec_start (port : Int32) (s : Store) :
    Exec storeEnv ((rpcListen port).code .start) s (.accept 3 4) s := by
  have hlisten : Exec storeEnv (tcpListen (.ofInt port.toInt) SOCK_BACKLOG) s (.ok 3) s := by
    refine (Exec.perform (r := Except.ok (3 : Fd)) rfl).bind ?_
    refine (Exec.perform (r := Except.ok ()) rfl).bind ?_
    dsimp only
    refine (Exec.perform (r := Except.ok ()) rfl).bind ?_
    exact .ret _ s
  exact hlisten.bind ((Exec.perform (r := some (4 : Fd)) rfl).bind (.ret _ s))

/-- A listener may accept a connection. -/
theorem exec_accept (port : Int32) (s : Store) :
    Exec storeEnv ((rpcListen port).code (.accept 3 4)) s (.serve 3 4 sampleConnection) s := by
  have huninit : Exec storeEnv uninitConnection s ⟨0, 0, 0, 0, 0⟩ s :=
    (Exec.perform ((storeEnv_open s).indeterminate 16 ⟨List.replicate 16 0, rfl⟩)).map
  have haccept : Exec storeEnv (tcpAccept 3 ⟨0, 0, 0, 0, 0⟩) s (.ok (), sampleConnection) s := by
    refine (Exec.perform (r := Except.ok ((5 : Fd), (⟨0, 0⟩ : SockAddrIn), 16)) rfl).bind ?_
    simp only [sockAddrLen, ne_eq, not_true_eq_false, if_false]
    exact (Exec.perform (r := Except.ok ((⟨0, 0⟩ : SockAddrIn), 16)) rfl).bind (.ret _ s)
  exact huninit.bind (haccept.bind (.ret _ s))

/-- A listener may come to serve a connection. -/
theorem reach_serve (port : Int32) (s : Store) :
    (rpcListen port).Reach storeEnv (.ret .start, s) (.ret (.serve 3 4 sampleConnection), s) :=
  (Process.Reach.of_round rfl (exec_start port s)).trans
    (Process.Reach.of_round rfl (exec_accept port s))

/-- A well-formed write request runs its block and is answered `Ok`. -/
theorem reach_write (port : Int32) (s : Store) {f : Frame} (key : Key) (value : Value)
    (hf : f.header.reqRecvTimeUs = 0) (hwrite : f.is "write")
    (hlen : WriteRequest.size ≤ f.data.length)
    (hparse : WriteRequest.parse f.data = some (key, value)) :
    (rpcListen port).Reach storeEnv (.ret (.serve 3 4 sampleConnection), s)
      (.ret (.serve 3 4 sampleConnection), s.write key.1 value) := by
  have hcommand :
      Exec storeEnv (processCommand sampleConnection f 4) s none (s.write key.1 value) := by
    have hname := (f.is_iff (by decide) (by decide)).mp hwrite
    rw [processCommand_eq, if_neg (by rw [hname]; decide), if_pos hname, handleRpcWrite_eq hlen,
      hparse]
    obtain ⟨-, hrespond⟩ := (storeEnv_open (s.write key.1 value)).exec_respond f
      (show ([] : Bytes).length < 2 ^ 32 by decide) .Ok (fun _ => s.write key.1 value) fun f _ =>
        ⟨_, exec_sendMessage (storeEnv_absorbs _ _ _) (storeEnv_absorbs _ _ _)
          (storeEnv_absorbs _ _)⟩
    exact ((Exec.perform (r := ()) rfl).bind hrespond).bind (.ret _ _)
  exact Process.Reach.of_round rfl
    (((storeEnv_open s).exec_serveMessage (storeEnv_absorbs s 4) hf hcommand).bind (.ret _ _))

/-- The ports of two listeners. -/
def samplePort (t : Bool) : Int32 := if t then 12345 else 12346

/-- A `write` of a value of one byte under a key of one byte. -/
def sampleWrite (key value : UInt8) : Frame :=
  .request (ascii "write") [1, 0, 0, 0, 0, 0, 0, 1, key, value] (by simp)

/-- A `read` of a key of one byte. -/
def sampleRead (key : UInt8) : Frame := .request (ascii "read") [key] (by simp)

variable {T : Type} [DecidableEq T] {port : T → Int32} {c₀ c : StoreConfig T} {t : T}

theorem runs_serve (hrun : (listeners port).Runs (fun _ _ => True) c₀ c)
    (hown : c.own t = .ret .start) :
    (listeners port).Runs (fun _ _ => True) c₀
      (c.set t (.ret (.serve 3 4 sampleConnection)) c.shared) :=
  hrun.reach (x := (.ret (.serve 3 4 sampleConnection), c.shared)) (fun _ => trivial)
    (hown ▸ reach_serve (port t) c.shared)

theorem runs_write (hrun : (listeners port).Runs (fun _ _ => True) c₀ c)
    (hown : c.own t = .ret (.serve 3 4 sampleConnection)) (key value : UInt8) :
    (listeners port).Runs (fun _ _ => True) c₀ (c.set t (.ret (.serve 3 4 sampleConnection))
      (c.shared.write [key] ⟨[value], show 1 < 2 ^ 32 by decide⟩)) := by
  refine hrun.reach (x := (.ret (.serve 3 4 sampleConnection), _)) (fun _ => trivial) ?_
  rw [hown]
  exact reach_write (f := sampleWrite key value) (port t) c.shared ⟨[key], by simp⟩
    ⟨[value], by simp⟩ rfl ((Frame.is_iff _ (by decide) (by decide)).mpr rfl)
    (show 8 ≤ 10 by decide) rfl

/-- A thread that serves a connection may come to handle any request. -/
theorem runs_command (hrun : (listeners port).Runs (fun _ _ => True) c₀ c)
    (hown : c.own t = .ret (.serve 3 4 sampleConnection)) {f : Frame}
    (hf : f.header.reqRecvTimeUs = 0) :
    ∃ k : Option RpcAction → Sys ListenPc, k none = .ret (.serve 3 4 sampleConnection) ∧
      (listeners port).Runs (fun _ _ => True) c₀
        (c.set t (processCommand sampleConnection f 4 >>= k) c.shared) := by
  have hopen := storeEnv_open c.shared
  have hrecv := hopen.exec_rpcRecvReq sampleConnection f
  rw [← hf, Frame.reqReceived_self] at hrecv
  have henter := hrun.enter (fun _ => trivial) hown rfl
  simp only [rpcListen, listenCode, serveMessage, bind_assoc] at henter
  have hreceived := henter.exec (fun _ => trivial) (Config.set_own_self _ _ _ _) hrecv
  rw [Config.set_set] at hreceived
  simp only [bind_assoc] at hreceived
  have hlogged := hreceived.exec (fun _ => trivial) (Config.set_own_self _ _ _ _)
    (exec_log (storeEnv_absorbs c.shared 4) f.message)
  rw [Config.set_set] at hlogged
  exact ⟨_, rfl, hlogged⟩

theorem runs_read (hrun : (listeners port).Runs (fun _ _ => True) c₀ c)
    (hown : c.own t = .ret (.serve 3 4 sampleConnection)) (key : UInt8) :
    (listeners port).Runs (fun _ _ => True) c₀
      (c.set t (handleRpcRead sampleConnection (sampleRead key) 4 >>= fun _ =>
        .ret (.serve 3 4 sampleConnection)) c.shared) := by
  obtain ⟨k, hk, hcommand⟩ := runs_command hrun hown (f := sampleRead key) rfl
  have hname : (sampleRead key).methodName = ascii "read" := rfl
  rw [processCommand_eq, hname, if_neg (by decide), if_neg (by decide), if_pos rfl, bind_assoc]
    at hcommand
  rw [← hk]
  exact hcommand

/-- Two keys are written, each on a connection of its own, and then the first one is read on the
other connection. -/
theorem read_after_write : ∃ (c : StoreConfig Bool) (connection : Connection)
    (request : Frame) (logFd : Fd) (rest : Unit → Sys ListenPc) (value value' : Value),
    c.own false = handleRpcRead connection request logFd >>= rest ∧
    c.shared.history = [([108], value'), (request.data, value)] ∧ value ≠ value' ∧
    ∀ c', (listeners samplePort).Step false c c' →
      c' = c.set false (respond connection request value.1 .Ok logFd >>= rest) c.shared := by
  have hserve := @runs_serve _ _ samplePort _ _ true (.start (serverInit Bool)) rfl
  have hwrite := runs_write hserve (Config.set_own_self _ true _ _) 107 1
  have hserve' := runs_serve (t := false) hwrite rfl
  have hwrite' := runs_write hserve' (Config.set_own_self _ false _ _) 108 2
  obtain ⟨c, hrun, hown, hhistory⟩ : ∃ c, (listeners samplePort).Runs (fun _ _ => True)
      (serverInit Bool) c ∧ c.own false = (handleRpcRead sampleConnection (sampleRead 107) 4 >>=
        fun _ => .ret (.serve 3 4 sampleConnection)) ∧
      c.shared.history = [([108], ⟨[2], by simp⟩), ([107], ⟨[1], by simp⟩)] :=
    ⟨_, runs_read hwrite' (Config.set_own_self _ false _ _) 107, Config.set_own_self _ false _ _,
      rfl⟩
  have hconsistent : c.shared.Consistent := by
    intro key v v' hv hv'
    have hkeys : (c.shared.history.map Prod.fst).Nodup := by
      rw [hhistory]
      decide
    exact (Prod.mk.inj (List.inj_on_of_nodup_map hkeys hv hv' rfl)).2
  refine ⟨c, _, _, 4, _, ⟨[1], by decide⟩, ⟨[2], by decide⟩, hown, hhistory, by decide,
    fun c' hstep => ?_⟩
  have hread := (read_most_recent hrun hconsistent).2.1 false _ _ _ _ c' hown hstep
  rw [Store.latest, hhistory] at hread
  exact hread

/-- A key is written twice, with two values, and then read, all on one connection: the answer is
the first value. -/
theorem read_after_overwrite : ∃ (c : StoreConfig Unit) (connection : Connection)
    (request : Frame) (logFd : Fd) (rest : Unit → Sys ListenPc) (v1 v2 : Value),
    (listeners fun _ => 12345).Runs (fun _ _ => True) (serverInit Unit) c ∧
    request.is "read" ∧ c.own () = respond connection request v1.1 .Ok logFd >>= rest ∧
    c.shared.latest request.data = some v2 ∧ v1 ≠ v2 := by
  have hserve := @runs_serve _ _ (fun _ => 12345) _ _ () (.start (serverInit Unit)) rfl
  have hwrite := runs_write hserve (Config.set_own_self _ () _ _) 107 1
  have hoverwrite := runs_write hwrite (Config.set_own_self _ () _ _) 107 2
  have hread := runs_read hoverwrite (Config.set_own_self _ () _ _) 107
  have hfound := hread.move () (Process.Step.call
    (show storeEnv.act _ (.find [107]) (some ⟨[1], by decide⟩) _ from ⟨rfl, rfl⟩)) trivial
  exact ⟨_, sampleConnection, sampleRead 107, 4, _, ⟨[1], by decide⟩, ⟨[2], by decide⟩, hfound,
    by decide, Config.set_own_self _ () _ _, rfl, by decide⟩

end Overwrite

end SoftwareDynamics.Network

import SoftwareDynamics.Network.Correlation

/-! An entry that one client writes and another client reads.  The length of the key passes through
an 8-bit parameter where it is written, but not where it is read. -/

namespace SoftwareDynamics.Network

open ProofKit Prog

section Keystores

/-- The keystore with one entry. -/
abbrev Keystore.single (key : Bytes) (value : Value) : Keystore := Finmap.singleton key value

theorem Keystore.emplace_empty (key : Bytes) (value : Value) :
    (∅ : Keystore).emplace key value = single key value := rfl

theorem Keystore.emplace_single (key : Bytes) (value : Value) :
    (single key value).emplace key value = single key value := by
  rw [emplace, if_pos]
  rw [single, Finmap.lookup_singleton_eq]
  rfl

theorem Keystore.lookup_single (key key' : Bytes) (value : Value) :
    (single key value).lookup key' = if key' = key then some value else none := by
  split_ifs with h
  · rw [h, single, Finmap.lookup_singleton_eq]
  · rw [Finmap.lookup_eq_none, single, Finmap.mem_singleton]
    exact h

/-- A write request with a given key and value. -/
structure Frame.Writes (request : Frame) (key : Key) (value : Value) : Prop where
  name : request.methodName = ascii "write"
  parse : WriteRequest.parse request.data = some (key, value)

/-- A read request with a given key. -/
structure Frame.Reads (request : Frame) (key : Bytes) : Prop where
  name : request.methodName = ascii "read"
  data : request.data = key

/-- An exchange that puts nothing into the keystore. -/
def Exchange.Inert (x : Exchange) : Prop :=
  x.request.methodName = ascii "write" → x.response.header.status = .BadArg

variable {k k' : Keystore} {request : Frame} {status : RpcStatus} {body key : Bytes} {key' : Key}
  {value : Value}

theorem Frame.Writes.handled (h : request.Writes key' value)
    (hhandles : Handles .alone k request status body k') : k' = k.emplace key'.1 value := by
  have hlong : request.LongEnough := by
    intro _
    have hparse := h.parse
    unfold WriteRequest.parse at hparse
    split_ifs at hparse with hlen
    omega
  have hanswer := hhandles.eq_answer hlong
  rw [Keystore.answer, if_neg (by rw [h.name]; decide), if_pos h.name, h.parse] at hanswer
  cases hanswer
  rfl

theorem Frame.Reads.handled (h : request.Reads key)
    (hhandles : Handles .alone k request status body k') :
    k' = k ∧ (status, body) = match k.lookup key with
      | some value => (.Ok, value.1)
      | none => (.NotFound, []) := by
  have hlong : request.LongEnough := by
    intro hwrite
    exact absurd (h.name.symm.trans hwrite) (by decide)
  have hanswer := hhandles.eq_answer hlong
  rw [Keystore.answer, if_neg (by rw [h.name]; decide), if_neg (by rw [h.name]; decide),
    if_pos h.name, h.data] at hanswer
  cases hlookup : k.lookup key <;> rw [hlookup] at hanswer <;> cases hanswer <;> exact ⟨rfl, rfl⟩

variable {x : Exchange}

theorem Exchange.Inert.handled (h : x.Inert)
    (hhandles : Handles .alone k x.request x.response.header.status body k') : k' = k := by
  unfold Inert at h
  generalize x.response.header.status = status at h hhandles
  cases hhandles with
  | ping => rfl
  | write hname => cases h hname
  | badWrite => rfl
  | read _ hstore => exact hstore.2
  | notFound _ hstore => exact hstore.2
  | quit => rfl

/-- An exchange after which the keystore is empty has found it empty, and put nothing into it. -/
theorem Exchange.inert_of_handles
    (hhandles : Handles .alone k x.request x.response.header.status body k') (hempty : k' = ∅) :
    k = ∅ ∧ x.Inert := by
  have other {name : Bytes} (hname : x.request.methodName = name) (hne : name ≠ ascii "write") :
      x.Inert := fun hwrite => absurd (hname.symm.trans hwrite) hne
  unfold Inert at other ⊢
  generalize x.response.header.status = status at other hhandles ⊢
  cases hhandles with
  | ping hname => exact ⟨hempty, other hname (by decide)⟩
  | @write key value _ _ _ hstore =>
    obtain rfl : k' = k.emplace key.1 value := hstore
    have hlookup := Keystore.lookup_emplace k key.1 key.1 value
    rw [hempty, if_pos rfl, Finmap.lookup_empty] at hlookup
    cases hk : k.lookup key.1 <;> rw [hk] at hlookup <;> cases hlookup
  | badWrite => exact ⟨hempty, fun _ => rfl⟩
  | read hname hstore => exact ⟨hstore.2 ▸ hempty, other hname (by decide)⟩
  | notFound hname hstore => exact ⟨hstore.2 ▸ hempty, other hname (by decide)⟩
  | quit hname => exact ⟨hempty, other hname (by decide)⟩

end Keystores

section Exchanges

variable {c₀ c₁ : Nat} {key : Key} {value : Value} {readKey : Bytes} {xs : List Exchange}
    {k : Keystore}

/-- A key that has come from an 8-bit length is short. -/
theorem Chain.keys_short (h : Chain .alone ∅ xs k) {key : Bytes} (hkey : key ∈ k) :
    key.length < 2 ^ 8 := by
  induction h with
  | start => exact absurd hkey Finmap.notMem_empty
  | @handle xs x k k' _ hhandles _ ih =>
    generalize x.response.header.status = status at hhandles
    generalize x.response.data = body at hhandles
    cases hhandles with
    | ping => exact ih hkey
    | @write key' value _ _ _ hstore =>
      obtain rfl : k' = k.emplace key'.1 value := hstore
      rw [Finmap.mem_iff, Keystore.lookup_emplace] at hkey
      by_cases heq : key = key'.1
      · exact heq ▸ key'.2
      · rw [if_neg heq, Option.or_none] at hkey
        exact ih (Finmap.mem_iff.mpr hkey)
    | badWrite => exact ih hkey
    | read _ hstore => exact ih (hstore.2 ▸ hkey)
    | notFound _ hstore => exact ih (hstore.2 ▸ hkey)
    | quit => exact ih hkey

/-- Where nothing is in the keystore, nothing has been put into it. -/
theorem Chain.inert (h : Chain .alone ∅ xs k) (hempty : k = ∅) : ∀ x ∈ xs, x.Inert := by
  induction h with
  | start => nofun
  | @handle xs x k k' _ hhandles _ ih =>
    obtain ⟨hk, hinert⟩ := Exchange.inert_of_handles hhandles hempty
    intro y hy
    rcases List.mem_append.mp hy with hy | hy
    · exact ih hk y hy
    · rw [List.mem_singleton.mp hy]
      exact hinert

/-- Where the connections from `c₀` on, before `c₁`, write one entry, and all later ones read, the
entry is there as soon as it has been written, and each later request is handled with it. -/
theorem Chain.entry (h : Chain .alone ∅ xs k) (hordered : xs.Pairwise fun x y => x.conn ≤ y.conn)
    (hinert : ∀ x ∈ xs, x.conn < c₀ → x.Inert)
    (hwrites : ∀ x ∈ xs, c₀ ≤ x.conn → x.conn < c₁ → x.request.Writes key value)
    (hreads : ∀ x ∈ xs, c₀ ≤ x.conn → c₁ ≤ x.conn → x.request.Reads readKey) :
    (k = if ∃ x ∈ xs, c₀ ≤ x.conn ∧ x.conn < c₁ then .single key.1 value else ∅) ∧
    ∀ x ∈ xs, c₀ ≤ x.conn → c₁ ≤ x.conn → (∃ w ∈ xs, c₀ ≤ w.conn ∧ w.conn < c₁) →
      ∃ k', Handles .alone (.single key.1 value) x.request x.response.header.status
        x.response.data k' := by
  induction h with
  | start => exact ⟨by simp, nofun⟩
  | @handle xs x k k' _ hhandles _ ih =>
    have hmem (y : Exchange) (hy : y ∈ xs) : y ∈ xs ++ [x] := List.mem_append_left _ hy
    have hlast : x ∈ xs ++ [x] := List.mem_append_right _ (List.mem_singleton_self x)
    obtain ⟨hordered, -, hle⟩ := List.pairwise_append.mp hordered
    obtain ⟨hk, hhandled⟩ := ih hordered (fun y hy => hinert y (hmem y hy))
      (fun y hy => hwrites y (hmem y hy)) fun y hy => hreads y (hmem y hy)
    have hsplit : (∃ y ∈ xs ++ [x], c₀ ≤ y.conn ∧ y.conn < c₁) ↔
        (∃ y ∈ xs, c₀ ≤ y.conn ∧ y.conn < c₁) ∨ c₀ ≤ x.conn ∧ x.conn < c₁ := by
      simp [or_and_right, exists_or]
    have hbefore (y : Exchange) (hy : y ∈ xs) : y.conn ≤ x.conn :=
      hle y hy x (List.mem_singleton_self x)
    by_cases hx : c₀ ≤ x.conn ∧ x.conn < c₁
    · -- A write.  There has been no read before it.
      have hk' := (hwrites x hlast hx.1 hx.2).handled hhandles
      refine ⟨?_, fun y hy _ hc => ?_⟩
      · rw [if_pos (hsplit.mpr (.inr hx)), hk', hk]
        split_ifs
        · exact Keystore.emplace_single _ _
        · exact Keystore.emplace_empty _ _
      · rcases List.mem_append.mp hy with hy | hy
        · have := hbefore y hy
          omega
        · rw [List.mem_singleton.mp hy] at hc
          omega
    · have hstore : k' = k := by
        by_cases hc : c₀ ≤ x.conn
        · exact ((hreads x hlast hc (by omega)).handled hhandles).1
        · exact (hinert x hlast (by omega)).handled hhandles
      rw [or_iff_left hx] at hsplit
      refine ⟨?_, fun y hy hc hc' hw => ?_⟩
      · rw [hstore, hk]
        simp only [hsplit]
      · rw [hsplit] at hw
        rcases List.mem_append.mp hy with hy | hy
        · exact hhandled y hy hc hc' hw
        · rw [List.mem_singleton.mp hy]
          rw [if_pos hw] at hk
          exact ⟨_, hk ▸ hhandles⟩

end Exchanges

section Idle

/-- Where a listener thread is that has served nobody. -/
def ListenPc.Unserved : ListenPc → Prop
  | .serve _ _ _ | .closing _ _ => False
  | _ => True

/-- The world around a listener thread to which nobody connects. -/
def idleEnv : Env SysOp SysOp.Result Unit where
  allows _ op := ∀ key value, op ≠ .emplace key value
  act _ op _ _ := ∀ fd, op ≠ .accept fd

theorem wp_idle {op : SysOp} {Q : op.Result → Unit → Prop}
    (h : ∀ key value, op ≠ .emplace key value)
    (hQ : ∀ r, (∀ fd, op ≠ .accept fd) → Q r ()) : wp idleEnv (sys op) Q () :=
  ⟨h, fun r _ hr => hQ r hr⟩

/-- A listener thread to which nobody connects leaves the keystore alone. -/
theorem ListenPc.Unserved.wp_listenCode {port : Int32} {pc : ListenPc} (h : pc.Unserved)
    (hgo : pc.over = false) : wp idleEnv (listenCode port pc) (fun pc _ => pc.Unserved) () := by
  cases pc with
  | start =>
    rw [listenCode, wp_bind, tcpListen, wp_bind]
    refine wp_idle (by simp) fun r _ => ?_
    cases r with
    | error err => trivial
    | ok sockFd =>
      dsimp only
      rw [wp_bind]
      refine wp_idle (by simp) fun r _ => ?_
      cases r with
      | error err => exact ⟨by simp [idleEnv], fun _ _ _ => trivial⟩
      | ok =>
        dsimp only
        rw [wp_bind]
        refine wp_idle (by simp) fun r _ => ?_
        cases r with
        | error err => exact ⟨by simp [idleEnv], fun _ _ _ => trivial⟩
        | ok =>
          refine ⟨by simp [idleEnv], fun r _ _ => ?_⟩
          cases r <;> trivial
  | accept listenSockFd logFd =>
    rw [listenCode, wp_bind, uninitConnection, wp_map]
    refine wp_idle (by simp) fun bs _ => ?_
    rw [wp_bind, tcpAccept, wp_bind]
    exact wp_idle (by simp) fun r hr => absurd rfl (hr listenSockFd)
  | serve => exact h.elim
  | closing => exact h.elim
  | returned => cases hgo
  | exited => cases hgo

end Idle

section Alone

/-- No client comes to the other listener threads. -/
def Unvisited {T : Type} : Party T → NetConfig T → Prop
  | .other t, c => ∀ fd k, c.own (.other t) ≠ .call (.accept fd) k
  | _, _ => True

/-- A server of which only one listener thread has served anyone, since it had no entry. -/
structure Alone {T : Type} (c : NetConfig T) : Prop where
  server : wp (watchedServer .alone ∅) (c.own .server) (ServerAt .alone ∅)
    (c.shared.hosts .server, c.shared.keystore)
  others : ∀ t, wp idleEnv (c.own (.other t)) (fun pc _ => pc.Unserved) ()
  flows : c.shared.Flows

theorem mem_onConn {xs : List Exchange} {x : Exchange} : x ∈ onConn xs x.conn ↔ x ∈ xs := by
  simp [onConn]

/-- While no client waits for a response, the exchanges of the server are those of its clients. -/
theorem Alone.exchanges {T : Type} {c : NetConfig T} (h : Alone c) {args : Args} {n : Nat}
    {ys zs : List Exchange} (hc : Called args n ys zs (c.shared.hosts .client)) :
    ∃ xs, Correlated .alone ∅ xs (c.shared.hosts .server, c.shared.keystore) ∧
      ∀ x, x ∈ xs ↔ x ∈ ys ∨ x ∈ zs := by
  obtain ⟨xs, hcorrelated⟩ := Env.watch_holds h.server fun _ _ hs => hs.correlated
  refine ⟨xs, hcorrelated, fun x => ?_⟩
  have hconn := (hcorrelated.eq_of_called hc (h.flows .server) (h.flows .client) x.conn).1
  rw [← mem_onConn, hconn, mem_onConn, List.mem_append]

variable {T : Type} [DecidableEq T] {stored : Bool} {args : Args} {ports : T → Int32}
  {c₀ c : NetConfig T}

theorem net_idle (hrun : (net stored args ports).Runs Unvisited c₀ c) {t : T}
    (h : wp idleEnv (c₀.own (.other t)) (fun pc _ => pc.Unserved) ()) :
    wp idleEnv (c.own (.other t)) (fun pc _ => pc.Unserved) () := by
  refine hrun.wp_view (.other t) (fun _ => ()) ?_ (fun _ _ _ _ _ _ _ _ _ _ _ => rfl)
    (fun _ _ _ hgo hs => hs.wp_listenCode hgo) h
  rintro c op k r s hok hown - fd rfl
  exact hok fd k hown

theorem Alone.run (h : Alone c₀) (hrun : (net stored args ports).Runs Unvisited c₀ c) :
    Alone c where
  others t := net_idle hrun (h.others t)
  flows := net_flows hrun h.flows
  server := by
    refine hrun.wp_view .server (fun s => (s.hosts .server, s.keystore)) ?_ ?_
      (fun _ _ _ hgo hs => hs.wp_listenCode hgo) h.server
    · rintro c op k r _ - - ⟨h, keystore, hact, -, hstore, rfl⟩
      refine ⟨?_, hstore⟩
      dsimp only
      rwa [Function.update_self]
    · rintro u hu c op k r s hrun - hown hact
      cases u with
      | server => exact absurd rfl hu
      | client =>
        obtain ⟨h, keystore, -, -, hstore, rfl⟩ := hact
        obtain rfl : keystore = c.shared.keystore := hstore
        dsimp only
        rw [Function.update_of_ne (by decide)]
      | other t =>
        obtain ⟨keystore, hstore, rfl⟩ := hact
        have hidle := net_idle hrun (h.others t)
        rw [hown] at hidle
        cases op with
        | emplace key value => exact absurd rfl (hidle.1 key value)
        | find key =>
          obtain rfl : keystore = c.shared.keystore := hstore.2
          rfl
        | _ =>
          obtain rfl : keystore = c.shared.keystore := hstore
          rfl

/-- The next client process. -/
def restart (c : NetConfig T) : NetConfig T :=
  c.set .client (.ret .start)
    (c.shared.set .client { c.shared.hosts .client with files := fun _ => none })

theorem Alone.restart (h : Alone c) : Alone (restart c) where
  server := by
    simp only [Network.restart, Config.set_shared, Net.set_keystore]
    rw [Config.set_own_of_ne (t := .client) (u := .server) c nofun,
      Net.set_hosts_of_ne _ _ (by decide)]
    exact h.server
  others t := by
    rw [Network.restart, Config.set_own_of_ne (t := .client) (u := .other t) c nofun]
    exact h.others t
  flows := by
    rintro (_ | _) n
    · simpa [Network.restart, Side.other] using h.flows .client n
    · simpa [Network.restart, Side.other] using h.flows .server n

/-- The configurations in which clients have been served, one after the other, by a server that had
no entry at first, and the last one of them has exited. -/
inductive Clients (stored : Bool) (ports : T → Int32) (port : UInt16) : NetConfig T → Prop
  | none : Clients stored ports port (netInit T ∅)
  | exits {args : Args} {c c' : NetConfig T} : Clients stored ports port c → args.port = port →
      (∀ j, args.Fits j) → (net stored args ports).Runs Unvisited (restart c) c' →
      c'.own .client = .ret (.exited 0) → Clients stored ports port c'

variable {port : UInt16}

theorem Clients.alone (h : Clients stored ports port c) : Alone c := by
  induction h with
  | none =>
    refine ⟨.start (fun _ _ => ⟨rfl, rfl⟩) (correlated_init _ _), fun _ => trivial,
      netInit_flows T ∅⟩
  | exits _ _ _ hrun _ ih => exact ih.restart.run hrun

theorem Called.past {ys zs : List Exchange} {h : Host} {n : Nat} (hc : Called args n ys zs h)
    (args' : Args) (n' : Nat) : Called args' n' (ys ++ zs) [] h where
  asks := nofun
  later := nofun
  opened := by simpa using hc.opened
  sent m := by simpa using hc.sent m
  got m := by simpa using hc.got m

omit [DecidableEq T] in
theorem Alone.answered (h : Alone c) : (c.shared.hosts .client).Answered := by
  obtain ⟨xs, hcorrelated⟩ := Env.watch_holds h.server fun _ _ hs => hs.correlated
  exact hcorrelated.answered (h.flows .server) (h.flows .client)

/-- Where a client has come to after others. -/
theorem Alone.next (h : Alone c₀) (hfits : ∀ j, args.Fits j)
    (hrun : (net stored args ports).Runs Unvisited (Network.restart c₀) c) {ys : List Exchange}
    (hc : Called args (c₀.shared.hosts .client).conns ys [] (c₀.shared.hosts .client))
    {pc : ClientPc} (hown : c.own .client = .ret pc) :
    ClientAt stored args (c₀.shared.hosts .client).conns ys pc (c.shared.hosts .client, ()) := by
  refine net_client hfits (fun c hrun => (h.restart.run hrun).answered) hrun ?_ hown
  simp only [Network.restart, Config.set_own_self, Config.set_shared, Net.set_hosts_self]
  exact .start (Nat.le_refl _) (hc.of_eq rfl rfl (Nat.le_refl _))

theorem Clients.called (h : Clients stored ports port c) :
    ∃ ys, ∀ args n, Called args n ys [] (c.shared.hosts .client) := by
  induction h with
  | none => exact ⟨[], fun args n => (called_init args).past args n⟩
  | exits hclients _ hfits hrun hexited ih =>
    obtain ⟨ys, hys⟩ := ih
    cases hclients.alone.next hfits hrun (hys _ _) hexited with
    | exited hc => exact ⟨_, fun args n => hc.past args n⟩
    | stopped _ hne => exact absurd rfl hne

end Alone

section WriteThenRead

variable {T : Type} [DecidableEq T] {stored : Bool} {args : Args} {ports : T → Int32}
  {key value : CString}

/-- What is stored under the key of a write command: the key goes through an 8-bit length. -/
theorem Args.Asks.writes {connection : Connection} {j : Nat} {rpcId : UInt32} {request : Frame}
    (h : args.Asks connection j rpcId request) (hcommand : args.command = .Write)
    (hkey : args.keyConfig.base = some key) (hvalue : args.valueConfig.base = some value)
    (hlen : value.bytes.length < 2 ^ 32) :
    ∃ k : Key, k.1 = key.bytes.take (key.bytes.length % 2 ^ 8) ∧
      request.Writes k ⟨value.bytes, hlen⟩ := by
  have hname := h.methodName
  rw [hcommand] at hname
  obtain ⟨body, hbody, hrequest⟩ := h
  simp only [Args.Body, hcommand, genStrDirect, hkey, hvalue] at hbody
  obtain ⟨pad, rfl⟩ := hbody
  have hkeyLen : (UInt8.ofNat key.bytes.length).toNat = key.bytes.length % 2 ^ 8 :=
    UInt8.toNat_ofNat'
  have hvalueLen : (UInt32.ofNat value.bytes.length).toNat = value.bytes.length :=
    UInt32.toNat_ofNat_of_lt' hlen
  obtain ⟨k, v, hparse, hk, hv⟩ := @WriteRequest.parse_layout pad key.bytes value.bytes
    (.ofNat key.bytes.length) (.ofNat value.bytes.length) (by rw [hkeyLen]; exact Nat.mod_le _ _)
    (Nat.le_of_eq hvalueLen)
  rw [hvalueLen, List.take_length] at hv
  obtain rfl : v = ⟨value.bytes, hlen⟩ := Subtype.ext hv
  exact ⟨k, by rw [hk, hkeyLen], hname, by rw [hrequest.data, hparse]⟩

theorem Args.Asks.reads {connection : Connection} {j : Nat} {rpcId : UInt32} {request : Frame}
    (h : args.Asks connection j rpcId request) (hcommand : args.command = .Read)
    (hkey : args.keyConfig.base = some key) : request.Reads key.bytes := by
  have hname := h.methodName
  rw [hcommand] at hname
  obtain ⟨body, hbody, hrequest⟩ := h
  simp only [Args.Body, hcommand, genStrDirect, hkey] at hbody
  exact ⟨hname, hrequest.data.trans hbody⟩

/-- A client has run one command `write`, and the next one, which runs a command `read` of the same
key, has got a response. -/
structure WriteThenRead (stored : Bool) (ports : T → Int32) (args args' : Args)
    (key value : CString) (response : Frame) (c : NetConfig T) : Prop where
  write : args.command = .Write
  writeKey : args.keyConfig.base = some key
  writeValue : args.valueConfig.base = some value
  nConns : 0 < args.nConns.toNat
  rpcsPerConn : 0 < args.rpcsPerConn.toNat
  read : args'.command = .Read
  readKey : args'.keyConfig.base = some key
  port : args'.port = args.port
  runs : ∃ c₀ c₁, Clients stored ports args.port c₀ ∧ c₀.shared.keystore = ∅ ∧
    (net stored args ports).Runs Unvisited (restart c₀) c₁ ∧ c₁.own .client = .ret (.exited 0) ∧
    (net stored args' ports).Runs Unvisited (restart c₁) c
  accepted : ∃ logFd i nextRpcId connection j,
    c.own .client = .ret (.accepted logFd i nextRpcId connection j response)

theorem WriteThenRead.alone {args' : Args} {response : Frame} {c : NetConfig T}
    (h : WriteThenRead stored ports args args' key value response c) : Alone c := by
  obtain ⟨c₀, c₁, hclients, -, hrun, -, hrun'⟩ := h.runs
  exact (hclients.alone.restart.run hrun).restart.run hrun'

/-- Where the connections of three phases are apart, the connection of an exchange tells its
phase. -/
theorem phase_of_conn {ys zs ws : List Exchange} {first second : Nat} {x : Exchange}
    (hys : ∀ y ∈ ys, y.conn < first) (hzs : ∀ z ∈ zs, first ≤ z.conn ∧ z.conn < second)
    (hws : ∀ w ∈ ws, second ≤ w.conn) (hle : first ≤ second) (hx : x ∈ ys ++ zs ∨ x ∈ ws) :
    (x.conn < first → x ∈ ys) ∧ (first ≤ x.conn → x.conn < second → x ∈ zs) ∧
      (second ≤ x.conn → x ∈ ws) := by
  rw [List.mem_append] at hx
  rcases hx with (hx | hx) | hx
  · have hconn := hys x hx
    exact ⟨fun _ => hx, by omega, by omega⟩
  · have hconn := hzs x hx
    exact ⟨by omega, fun _ _ => hx, by omega⟩
  · have hconn := hws x hx
    exact ⟨by omega, by omega, fun _ => hx⟩

/-- An entry whose key fits its length is read as it has been written. -/
theorem WriteThenRead.found {args' : Args} {response : Frame} {c : NetConfig T}
    (h : WriteThenRead stored ports args args' key value response c)
    (hvalue : value.bytes.length ≤ 5 * 256 * 1024) (hkey : key.bytes.length < 2 ^ 8) :
    response.header.status = .Ok ∧ response.data = value.bytes ∧
      c.shared.keystore = .single key.bytes ⟨value.bytes, by omega⟩ := by
  have halone := h.alone
  obtain ⟨hwrite, hwriteKey, hwriteValue, hnConns, hrpcs, hread, hreadKey, -, hruns, haccepted⟩ := h
  obtain ⟨c₀, c₁, hclients, hempty, hrun, hexited, hrun'⟩ := hruns
  obtain ⟨logFd, i, nextRpcId, connection, j, hown⟩ := haccepted
  have hfits (j : Nat) : args.Fits j := by
    simpa [Args.Fits, hwrite, genStrDirect, hwriteValue] using hvalue
  have hfits' (j : Nat) : args'.Fits j := by
    simp only [Args.Fits, hread, genStrDirect, hreadKey]
    omega
  -- Those before have put nothing into the keystore.
  obtain ⟨ys, hys⟩ := hclients.called
  obtain ⟨xs₀, hcorrelated₀, hmem₀⟩ := hclients.alone.exchanges (hys args 0)
  have hinert := hcorrelated₀.chain.inert hempty
  -- The first client has written.
  cases hclients.alone.next hfits hrun (hys _ _) hexited with
  | stopped _ hne => exact absurd rfl hne
  | @exited _ zs hc hlen =>
  obtain ⟨z, hz⟩ := List.exists_mem_of_length_pos (hlen ▸ Nat.mul_pos hnConns hrpcs)
  -- The second one has read.
  have hwritten := hclients.alone.restart.run hrun
  cases hwritten.next hfits' hrun' (hc.past _ _) hown with
  | stopped hover => cases hover
  | @accepted _ _ _ _ _ n request raw _ ws now hc' _ _ _ _ =>
  obtain ⟨xs, hcorrelated, hmem⟩ := halone.exchanges hc'.called
  have hbefore (y : Exchange) (hy : y ∈ ys) : y.conn < (c₀.shared.hosts .client).conns :=
    (hys args 0).opened y (List.mem_append_left _ hy)
  have hbetween (z : Exchange) (hz : z ∈ zs) : (c₀.shared.hosts .client).conns ≤ z.conn ∧
      z.conn < (c₁.shared.hosts .client).conns :=
    ⟨hc.later z hz, hc.opened z (List.mem_append_right ys hz)⟩
  have hafter := hc'.called.later
  have hle := Nat.le_of_lt (Nat.lt_of_le_of_lt (hbetween z hz).1 (hbetween z hz).2)
  have hphase (x : Exchange) (hx : x ∈ xs) :=
    phase_of_conn hbefore hbetween hafter hle ((hmem x).mp hx)
  have hwrites (x : Exchange) (hx : x ∈ zs) :
      x.request.Writes ⟨key.bytes, hkey⟩ ⟨value.bytes, by omega⟩ := by
    obtain ⟨connection, j, rpcId, hasks⟩ := hc.asks x hx
    obtain ⟨k, hk, hwrites⟩ := hasks.writes hwrite hwriteKey hwriteValue (by omega)
    rw [Nat.mod_eq_of_lt hkey, List.take_length] at hk
    obtain rfl : k = ⟨key.bytes, hkey⟩ := Subtype.ext hk
    exact hwrites
  have hreads (x : Exchange) (hx : x ∈ ws ++ [⟨n, request, raw⟩]) :
      x.request.Reads key.bytes := by
    obtain ⟨connection, j, rpcId, hasks⟩ := hc'.called.asks x hx
    exact hasks.reads hread hreadKey
  obtain ⟨hkeystore, hhandled⟩ := @Chain.entry (c₀.shared.hosts .client).conns
    (c₁.shared.hosts .client).conns ⟨key.bytes, hkey⟩ ⟨value.bytes, by omega⟩ key.bytes _ _
    hcorrelated.chain hcorrelated.ordered
    (fun x hx hlt => hinert x ((hmem₀ x).mpr (.inl ((hphase x hx).1 hlt))))
    (fun x hx hge hlt => hwrites x ((hphase x hx).2.1 hge hlt))
    (fun x hx _ hge => hreads x ((hphase x hx).2.2 hge))
  have hentry : ∃ w ∈ xs, (c₀.shared.hosts .client).conns ≤ w.conn ∧
      w.conn < (c₁.shared.hosts .client).conns :=
    ⟨z, (hmem z).mpr (.inl (List.mem_append_right ys hz)), hbetween z hz⟩
  have hlast : ⟨n, request, raw⟩ ∈ ws ++ [⟨n, request, raw⟩] := by simp
  obtain ⟨k', hhandles⟩ := hhandled _ ((hmem _).mpr (.inr hlast))
    (Nat.le_trans hle (hafter _ hlast)) (hafter _ hlast) hentry
  obtain ⟨-, hanswer⟩ := (hreads _ hlast).handled hhandles
  rw [Keystore.lookup_single, if_pos rfl] at hanswer
  obtain ⟨hstatus, hdata⟩ := Prod.mk.inj hanswer
  exact ⟨hstatus, hdata, hkeystore.trans (if_pos hentry)⟩

/-- A response that a read gets tells the value that has been written just when the length of the
key fits in 8 bits. -/
theorem WriteThenRead.found_iff {args' : Args} {response : Frame} {c : NetConfig T}
    (h : WriteThenRead stored ports args args' key value response c)
    (hvalue : value.bytes.length ≤ 5 * 256 * 1024) :
    (response.header.status = .Ok ∧ response.data = value.bytes ∧
      c.shared.keystore = .single key.bytes ⟨value.bytes, by omega⟩) ↔ key.bytes.length ≤ 255 := by
  constructor
  · rintro ⟨-, -, hkeystore⟩
    obtain ⟨xs, hcorrelated⟩ := Env.watch_holds h.alone.server fun _ _ hs => hs.correlated
    have hmem : key.bytes ∈ c.shared.keystore := by
      rw [hkeystore, Finmap.mem_singleton]
    have hshort := hcorrelated.chain.keys_short hmem
    omega
  · intro hkey
    exact h.found hvalue (by omega)

/-- A read gets a response only if its body can be read. -/
theorem WriteThenRead.readable {args' : Args} {response : Frame} {c : NetConfig T}
    (h : WriteThenRead stored ports args args' key value response c)
    (hvalue : value.bytes.length ≤ 5 * 256 * 1024) (hkey : key.bytes.length < 2 ^ 32) :
    stored = true ∨ key.bytes = [] := by
  obtain ⟨hwrite, -, hwriteValue, -, -, hread, hreadKey, -, hruns, haccepted⟩ := h
  obtain ⟨c₀, c₁, hclients, -, hrun, hexited, hrun'⟩ := hruns
  obtain ⟨logFd, i, nextRpcId, connection, j, hown⟩ := haccepted
  have hfits (j : Nat) : args.Fits j := by
    simpa [Args.Fits, hwrite, genStrDirect, hwriteValue] using hvalue
  have hfits' (j : Nat) : args'.Fits j := by
    simpa [Args.Fits, hread, genStrDirect, hreadKey] using hkey
  obtain ⟨ys, hys⟩ := hclients.called
  cases hclients.alone.next hfits hrun (hys _ _) hexited with
  | stopped _ hne => exact absurd rfl hne
  | exited hc =>
  have hwritten := hclients.alone.restart.run hrun
  cases hwritten.next hfits' hrun' (hc.past _ _) hown with
  | stopped hover => cases hover
  | accepted _ _ _ _ haccepted =>
    have hreadable := haccepted.readable
    simpa only [Args.Readable, hread, genStrDirect, hreadKey] using hreadable

/-- The entry that one client writes is read by the next one, and is the only one: a read may get a
response, and each response that it gets tells the value. -/
def ReadsBack (stored : Bool) (ports : T → Int32) (key value : CString)
    (hvalue : value.bytes.length ≤ 5 * 256 * 1024) : Prop :=
  (∃ args args' response c, WriteThenRead stored ports args args' key value response c) ∧
  ∀ args args' response c, WriteThenRead stored ports args args' key value response c →
    response.header.status = .Ok ∧ response.data = value.bytes ∧
      c.shared.keystore = .single key.bytes ⟨value.bytes, by omega⟩

theorem restart_netInit (keystore : Keystore) :
    restart (netInit T keystore) = netInit T keystore := by
  let c := netInit T keystore
  change c.set .client (c.own .client) (c.shared.set .client (c.shared.hosts .client)) = c
  rw [Net.set_self, Config.set_own_eq]

theorem Waiting.restart {c : NetConfig T} {n : Nat} (hrest : c.shared.Rest n)
    (hserver : c.own .server = .ret (.accept 3 4)) :
    Waiting (restart c) n c.shared.keystore where
  client := Config.set_own_self _ _ _ _
  server := (Config.set_own_of_ne (t := .client) (u := .server) c nofun _ _).trans hserver
  rest := by
    obtain ⟨h3, h4, h5, hconns, hunused⟩ := hrest
    refine ⟨by simpa [Network.restart] using h3, by simpa [Network.restart] using h4,
      by simpa [Network.restart] using h5, fun side => ?_, fun side => ?_⟩
    · cases side <;> simp [Network.restart, hconns]
    · cases side with
      | client =>
        rw [Network.restart, Config.set_shared, Net.set_hosts_self]
        exact hunused .client
      | server => simpa [Network.restart] using hunused .server
  files fd := by simp [Network.restart]
  keystore := rfl

/-- A client that writes, and then one that reads, and what comes of it. -/
theorem exists_writeThenRead (ports : T → Int32) (hreadable : stored = true ∨ key.bytes = [])
    (hkey : key.bytes.length < 2 ^ 32) (hvalue : value.bytes.length ≤ 5 * 256 * 1024) :
    ∃ (c : NetConfig T) (response : Frame) (k : Key),
      WriteThenRead stored ports (oneRequest .Write (some key) (some value))
        (oneRequest .Read (some key) none) key value response c ∧
      k.1 = key.bytes.take (key.bytes.length % 2 ^ 8) ∧
      c.shared.keystore = .single k.1 ⟨value.bytes, by omega⟩ ∧
      response.header.status = if key.bytes = k.1 then .Ok else .NotFound := by
  have hone : 0 < (1 : UInt32).toNat := by decide
  obtain ⟨c, hrun, hwaiting⟩ := @runs_listen T _ stored
    (oneRequest .Write (some key) (some value)) ports Unvisited (fun _ => trivial) ∅
  obtain ⟨c, connection, connection', _, _, _, hrun, hclient, hserving, hasks, hhandles⟩ :=
    hwaiting.accepted hrun (fun _ => trivial) (fun _ => trivial) hone hone trivial hvalue nofun
  obtain ⟨k, hk, hwrites⟩ := hasks.writes rfl rfl rfl (by omega)
  have hwritten := hwrites.handled hhandles
  obtain ⟨c₁, hrun, hclient, hserving, hstore⟩ := hserving.again hrun (fun _ => trivial) rfl hclient
  obtain ⟨c₁, hrun, hexited, hserver, hrest, hkept⟩ :=
    hserving.leave hrun (fun _ => trivial) (fun _ => trivial) hclient (Nat.le_refl 1)
      (Nat.le_refl 1)
  rw [hstore] at hkept
  obtain ⟨c, _, _, _, raw, now, hrun', hclient, -, hasks, hhandles⟩ :=
    @Waiting.accepted T _ stored (oneRequest .Read (some key) none) ports Unvisited _ _ _ _
      (Waiting.restart hrest hserver) (Threads.Runs.start (restart c₁)) (fun _ => trivial)
      (fun _ => trivial) hone hone hreadable hkey nofun
  obtain ⟨hread, hanswer⟩ := (hasks.reads rfl rfl).handled hhandles
  rw [hkept, hwritten, Keystore.emplace_empty] at hread hanswer
  refine ⟨c, raw.resReceived now, k, ⟨rfl, rfl, rfl, hone, hone, rfl, rfl, rfl, ?_, ?_⟩, hk, hread,
    ?_⟩
  · exact ⟨_, c₁, .none, rfl, (@restart_netInit T _ ∅).symm ▸ hrun, hexited, hrun'⟩
  · exact ⟨_, _, _, _, _, hclient⟩
  · rw [Keystore.lookup_single] at hanswer
    split_ifs at hanswer ⊢ <;> exact (Prod.mk.inj hanswer).1

theorem ReadsBack.short {hvalue : value.bytes.length ≤ 5 * 256 * 1024}
    (h : ReadsBack stored ports key value hvalue) :
    (stored = true ∨ key.bytes = []) ∧ key.bytes.length ≤ 255 := by
  obtain ⟨⟨args, args', response, c, hread⟩, hall⟩ := h
  have hshort := (hread.found_iff hvalue).mp (hall _ _ _ _ hread)
  exact ⟨hread.readable hvalue (by omega), hshort⟩

/-- For every key and every value that is not too long, the entry that one client writes is read by
the next one, and is the only one, if and only if the length of the key fits in 8 bits, and the key
is empty unless the client finds in `body` what is stored through a pointer of another type. -/
theorem write_then_read_iff (stored : Bool) {T : Type} [DecidableEq T] (ports : T → Int32)
    (key value : CString) (hvalue : value.bytes.length ≤ 5 * 256 * 1024) :
    ReadsBack stored ports key value hvalue ↔
      (stored = true ∨ key.bytes = []) ∧ key.bytes.length ≤ 255 := by
  refine ⟨ReadsBack.short, fun ⟨hreadable, hkey⟩ => ⟨?_, fun args args' response c hread => ?_⟩⟩
  · obtain ⟨c, response, _, hread, -⟩ :=
      exists_writeThenRead ports hreadable (Nat.lt_of_le_of_lt hkey (by decide)) hvalue
    exact ⟨_, _, response, c, hread⟩
  · exact (hread.found_iff hvalue).mpr hkey

/-- The empty key, whatever the build, and the key `k`, where the client finds it. -/
theorem write_then_read_short :
    ReadsBack false (fun _ : Unit => 12346) ⟨[], by decide⟩ ⟨ascii "v", by decide⟩ (by decide) ∧
    ReadsBack true (fun _ : Unit => 12346) ⟨ascii "k", by decide⟩ ⟨ascii "v", by decide⟩
      (by decide) :=
  ⟨(write_then_read_iff false _ _ _ (by decide)).mpr (by decide),
    (write_then_read_iff true _ _ _ (by decide)).mpr (by decide)⟩

/-- The key `k` is not read where the client finds `NULL`, and a key of 256 bytes is stored as the
empty key, and not found. -/
theorem write_then_read_loses :
    ¬ReadsBack false (fun _ : Unit => 12346) ⟨ascii "k", by decide⟩ ⟨ascii "v", by decide⟩
      (by decide) ∧
    ∃ (key value : CString) (c : NetConfig Unit) (response : Frame),
      key.bytes = List.replicate 256 107 ∧ value.bytes = ascii "v" ∧
      WriteThenRead true (fun _ => 12346) (oneRequest .Write (some key) (some value))
        (oneRequest .Read (some key) none) key value response c ∧
      response.header.status = .NotFound ∧
      c.shared.keystore = .single [] ⟨ascii "v", by decide⟩ := by
  refine ⟨fun h => absurd h.short.1 (by decide), ?_⟩
  have hkey : (0 : UInt8) ∉ List.replicate 256 107 :=
    fun h => absurd (List.eq_of_mem_replicate h) (by decide)
  have hlen : (List.replicate 256 (107 : UInt8)).length = 256 := List.length_replicate
  obtain ⟨c, response, k, h, hk, hkeystore, hstatus⟩ := @exists_writeThenRead Unit _ true
    ⟨List.replicate 256 107, hkey⟩ ⟨ascii "v", by decide⟩ (fun _ => 12346) (.inl rfl)
    (by rw [hlen]; decide) (by decide)
  rw [hlen, show 256 % 2 ^ 8 = 0 from rfl, List.take_zero] at hk
  rw [hk] at hkeystore hstatus
  have hne : List.replicate 256 (107 : UInt8) ≠ [] := List.ne_nil_of_length_eq_add_one hlen
  exact ⟨_, _, c, response, rfl, rfl, h, hstatus.trans (if_neg hne), hkeystore⟩

end WriteThenRead

end SoftwareDynamics.Network

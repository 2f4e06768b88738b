import SoftwareDynamics.Network.BothLogs
import SoftwareDynamics.Network.DumpLines

/-! How the addresses of the two ends of a connection are shown, by `dumplogfile` and by
`RPCHeader::pretty_print`. -/

namespace SoftwareDynamics.Network

open ProofKit Prog

section Model

/-- An IPv4 address `a.b.c.d` and a port. -/
structure InetAddr where
  a : UInt8
  b : UInt8
  c : UInt8
  d : UInt8
  port : UInt16
  deriving DecidableEq

namespace InetAddr

/-- `a.b.c.d` -/
def address (e : InetAddr) : List Char :=
  percentU e.a.toNat ++ '.' :: (percentU e.b.toNat ++ '.' :: (percentU e.c.toNat ++
    '.' :: percentU e.d.toNat))

/-- `a.b.c.d:p` -/
def text (e : InetAddr) : List Char := e.address ++ ':' :: percentU e.port.toNat

/-- What a `sockaddr_in` holds, whose bytes are in network byte order, on a little-endian host. -/
def sockAddr (e : InetAddr) : SockAddrIn := ⟨ofLe32 [e.a, e.b, e.c, e.d], htons e.port⟩

/-- The same bytes, read backwards. -/
def reversed (e : InetAddr) : InetAddr := ⟨e.d, e.c, e.b, e.a, htons e.port⟩

end InetAddr

/-- The network as one end of a connection sees it.  `inet_pton` understands the address of the
other end, `accept` reports that end, and `getsockname` reports this one. -/
def inetEnv (own peer : InetAddr) : Env SysOp SysOp.Result Unit where
  allows _ _ := True
  act _ op r _ :=
    match op, r with
    | .inetPton src, r =>
      chars src.bytes = peer.address → r = .ok (some peer.sockAddr.sinAddr)
    | .accept _, .ok (_, addr, _) => addr = peer.sockAddr
    | .getsockname _, .ok (addr, _) => addr = own.sockAddr
    | _, _ => True

/-- A connection between two ends, as `tcp_connect` fills it in at the client, or `tcp_accept` at
the server. -/
inductive Opened (client server : InetAddr) (connection : Connection) : Prop
  | connected (serverAddrStr : CString) : chars serverAddrStr.bytes = server.address →
      Exec (inetEnv client server) (tcpConnect serverAddrStr server.port) () (.ok connection) () →
      Opened client server connection
  | accepted (sockFd : Fd) (before : Connection) :
      Exec (inetEnv server client) (tcpAccept sockFd before) () (.ok (), connection) () →
      Opened client server connection

/-- These bytes are sent on a connection between two ends, and the sender logs this record.  They
are a request, or the response to a request that has been received from the other end. -/
inductive Carries (client server : InetAddr) : Bytes → LogMessage → Prop
  | request {connection : Connection} {logFd : Fd} {c : ReqCall} {rpcId : UInt32}
      {sent logged : Bytes} {m : LogMessage} : Opened client server connection → 0 ≤ logFd →
      logFd ≠ connection.sockFd →
      SendsAndLogs connection logFd (rpcSendReq connection c.body c.parentRpc c.method logFd rpcId)
        (some (), rpcId + 1) sent logged →
      m ∈ records logged → Carries client server sent m
  | response {connection : Connection} {logFd : Fd} {c : RespCall} {before behind : Bytes}
      {m' : LogMessage} {keystore : Keystore} {e : Endpoint Keystore} {sent logged : Bytes}
      {m : LogMessage} : Opened client server connection → 0 ≤ logFd → logFd ≠ connection.sockFd →
      Carries client server before m' →
      Exec (streamEnv connection logFd (before ++ behind)) (rpcRecvReq connection) (.fresh keystore)
        (some c.request) e →
      SendsAndLogs connection logFd
        (rpcSendResp connection c.request.message c.body c.status logFd) (some ()) sent logged →
      m ∈ records logged → Carries client server sent m

/-- One of the two ends logs this record of a message that is sent on the connection. -/
inductive LoggedBetween (client server : InetAddr) (m : LogMessage) : Prop
  | sent (sent : Bytes) : Carries client server sent m → LoggedBetween client server m
  | received (connection : Connection) (logFd : Fd) (receive : Sys (Option Frame))
      (sent behind logged : Bytes) (m' : LogMessage) : Opened client server connection →
      logFd ≠ connection.sockFd → Carries client server sent m' →
      receive ∈ [rpcRecvReq connection, rpcRecvResp connection] →
      ReceivesAndLogs connection logFd receive (sent ++ behind) logged → m ∈ records logged →
      LoggedBetween client server m

/-- Both ends are shown as they are, in what `dumplogfile` makes of any log file, for each record of
a message on the connection, and where the header of such a record is printed. -/
def ShownAsTheyAre (client server : InetAddr) : Prop :=
  ∀ m, LoggedBetween client server m →
    (∀ fd file pc, Dumps fd file pc → ∀ i : Nat, (records file)[i]? = some m →
      (labelled (memberLabel "client" "      ") pc.printed.stdout)[i]? = some client.text ∧
      (labelled (memberLabel "server" "      ") pc.printed.stdout)[i]? = some server.text) ∧
    (labelled "\tclient:  ".toList m.header.prettyPrint).head? = some client.text ∧
    (labelled "\tserver:  ".toList m.header.prettyPrint).head? = some server.text

end Model

section Dotted

theorem percentD_of_lt {x : UInt32} (h : x.toNat < 2 ^ 31) : percentD x = percentU x.toNat := by
  have hint : x.toInt32.toInt = x.toNat :=
    BitVec.toInt_eq_toNat_of_lt (show 2 * x.toNat < 2 ^ 32 by omega)
  rw [percentD, hint]

theorem percentD_octet {x mask k : UInt32} (hk : k.toNat < 32)
    (hmask : mask.toNat >>> k.toNat = 255) :
    percentD ((x &&& mask) >>> k) = percentU (x.toNat / 2 ^ k.toNat % 256) := by
  have hoctet : ((x &&& mask) >>> k).toNat = x.toNat / 2 ^ k.toNat % 256 := by
    rw [UInt32.toNat_shiftRight, UInt32.toNat_and, Nat.mod_eq_of_lt hk,
      Nat.shiftRight_and_distrib, hmask, Nat.shiftRight_eq_div_pow]
    exact Nat.and_two_pow_sub_one_eq_mod _ 8
  have hlt := Nat.mod_lt (x.toNat / 2 ^ k.toNat) (show 0 < 256 by decide)
  rw [percentD_of_lt (by omega), hoctet]

theorem percentD_port (port : UInt16) : percentD port.toUInt32 = percentU port.toNat := by
  have hlt := port.toNat_lt
  rw [percentD_of_lt (by rw [UInt16.toNat_toUInt32]; omega), UInt16.toNat_toUInt32]

/-- The octets are printed from the highest one of the number on. -/
theorem dotted_eq (ip : UInt32) (port : UInt16) :
    dotted ip port = percentU (ip.toNat / 2 ^ 24 % 256) ++
      '.' :: percentU (ip.toNat / 2 ^ 16 % 256) ++ '.' :: percentU (ip.toNat / 2 ^ 8 % 256) ++
      '.' :: percentU (ip.toNat % 256) ++ ':' :: percentU port.toNat := by
  have hlow : ip &&& (0x000000ff : UInt32) = (ip &&& (0x000000ff : UInt32)) >>> 0 :=
    UInt32.shiftRight_zero.symm
  have hone : ip.toNat / 2 ^ (0 : UInt32).toNat % 256 = ip.toNat % 256 :=
    congrArg (· % 256) (Nat.div_one _)
  rw [dotted, hlow, percentD_octet (by decide) rfl, percentD_octet (by decide) rfl,
    percentD_octet (by decide) rfl, percentD_octet (by decide) rfl, percentD_port, hone]
  rfl

/-- A number whose lowest byte is the first octet is printed from the last octet on. -/
theorem dotted_sockAddr (e : InetAddr) :
    dotted e.sockAddr.sinAddr e.sockAddr.sinPort = e.reversed.text := by
  obtain ⟨a, b, c, d, port⟩ := e
  have ha := a.toNat_lt
  have hb := b.toNat_lt
  have hc := c.toNat_lt
  have hd := d.toNat_lt
  let n := a.toNat + 256 * (b.toNat + 256 * (c.toNat + 256 * d.toNat))
  have hn : leNat [a, b, c, d] = n := by simp [leNat, n]
  have hip : (ofLe32 [a, b, c, d]).toNat = n := by
    rw [ofLe32, hn, UInt32.toNat_ofNat_of_lt' (show n < 4294967296 by omega)]
  have h24 : n / 2 ^ 24 % 256 = d.toNat := by omega
  have h16 : n / 2 ^ 16 % 256 = c.toNat := by omega
  have h8 : n / 2 ^ 8 % 256 = b.toNat := by omega
  have h0 : n % 256 = a.toNat := by omega
  rw [dotted_eq, InetAddr.sockAddr, hip, h24, h16, h8, h0]
  simp only [InetAddr.text, InetAddr.address, InetAddr.reversed, List.append_assoc,
    List.cons_append]

theorem InetAddr.text_inj {e e' : InetAddr} (h : e.text = e'.text) : e = e' := by
  have hdot : ¬ '.'.isDigit := by decide
  have hcolon : ¬ ':'.isDigit := by decide
  obtain ⟨a, b, c, d, port⟩ := e
  obtain ⟨a', b', c', d', port'⟩ := e'
  simp only [text, address, percentU, List.append_assoc, List.cons_append] at h
  obtain ⟨ha, h⟩ := toDigits_append_inj hdot h
  obtain ⟨hb, h⟩ := toDigits_append_inj hdot h
  obtain ⟨hc, h⟩ := toDigits_append_inj hdot h
  obtain ⟨hd, h⟩ := toDigits_append_inj hcolon h
  have hport := toDigits_inj h
  rw [UInt8.toNat_inj.mp ha, UInt8.toNat_inj.mp hb, UInt8.toNat_inj.mp hc, UInt8.toNat_inj.mp hd,
    UInt16.toNat_inj.mp hport]

end Dotted

section Ends

variable {client server : InetAddr} {connection : Connection}

theorem wp_inet {op : SysOp} {Q : op.Result → Unit → Prop}
    (hQ : ∀ r, (inetEnv client server).act () op r () → Q r ()) :
    wp (inetEnv client server) (sys op) Q () :=
  ⟨trivial, fun r _ hr => hQ r hr⟩

/-- Whatever happens, a connection that `tcp_connect` opens has the addresses of the two ends. -/
theorem wp_tcpConnect_ends {serverAddrStr : CString}
    (h : chars serverAddrStr.bytes = server.address) :
    wp (inetEnv client server) (tcpConnect serverAddrStr server.port)
      (fun r _ => ∀ connection, r = .ok connection →
        ⟨connection.clientIp, connection.clientPort⟩ = client.sockAddr ∧
        ⟨connection.serverIp, connection.serverPort⟩ = server.sockAddr) () := by
  have closed (err : Errno) (fd : Fd) : wp (inetEnv client server) (sys (.close fd))
      (fun _ _ => ∀ connection : Connection, Except.error err = Except.ok connection →
        ⟨connection.clientIp, connection.clientPort⟩ = client.sockAddr ∧
        ⟨connection.serverIp, connection.serverPort⟩ = server.sockAddr) () :=
    ⟨trivial, fun _ _ _ _ => nofun⟩
  refine wp_tcpConnect (fun _ _ => True) (fun _ sinAddr _ => sinAddr = server.sockAddr.sinAddr)
    (fun _ sinAddr _ => sinAddr = server.sockAddr.sinAddr) (wp_inet fun r _ => ?_) ?_ ?_ ?_
  · rcases r with err | fd
    · exact fun _ => nofun
    · trivial
  · refine fun fd _ _ => wp_inet fun r hparsed => ?_
    obtain rfl : r = .ok (some server.sockAddr.sinAddr) := hparsed h
    rfl
  · rintro fd _ _ rfl
    refine wp_inet fun r _ => ?_
    rcases r with err | _
    · exact closed err fd
    · rfl
  · rintro fd _ _ rfl
    refine wp_inet fun r hname => ?_
    rcases r with err | ⟨addr, addrLen⟩
    · exact closed err fd
    obtain rfl : addr = client.sockAddr := hname
    dsimp only [onResult]
    split_ifs
    · exact fun _ => nofun
    · rintro connection ⟨⟩
      exact ⟨rfl, rfl⟩

theorem wp_tcpAccept_ends (sockFd : Fd) (before : Connection) :
    wp (inetEnv server client) (tcpAccept sockFd before)
      (fun r _ => r.1 = .ok () → ⟨r.2.clientIp, r.2.clientPort⟩ = client.sockAddr ∧
        ⟨r.2.serverIp, r.2.serverPort⟩ = server.sockAddr) () := by
  refine wp_tcpAccept (fun _ addr _ => addr = client.sockAddr) (wp_inet fun r haccept => ?_) ?_
  · rcases r with err | ⟨peerSockFd, addr, addrLen⟩
    · exact nofun
    obtain rfl : addr = client.sockAddr := haccept
    dsimp only [onResult]
    split_ifs
    · exact nofun
    · rfl
  · rintro fd _ _ rfl
    refine wp_inet fun r hname => ?_
    rcases r with err | ⟨addr, addrLen⟩
    · exact wp_inet fun _ _ => nofun
    obtain rfl : addr = server.sockAddr := hname
    dsimp only [onResult]
    split_ifs
    · exact nofun
    · exact fun _ => ⟨rfl, rfl⟩

theorem Opened.ends (h : Opened client server connection) :
    ⟨connection.clientIp, connection.clientPort⟩ = client.sockAddr ∧
    ⟨connection.serverIp, connection.serverPort⟩ = server.sockAddr := by
  cases h with
  | connected serverAddrStr haddress hexec => exact hexec.of_wp (wp_tcpConnect_ends haddress) _ rfl
  | accepted sockFd before hexec => exact hexec.of_wp (wp_tcpAccept_ends sockFd before) rfl

/-- A header with the addresses of the two ends. -/
def RPCHeader.Between (client server : InetAddr) (h : RPCHeader) : Prop :=
  h.client = client.sockAddr ∧ h.server = server.sockAddr

theorem HasSent.header_of_mem {message : RPCMessage} {body logged : Bytes}
    {e e' : Endpoint Keystore} {m : LogMessage} (h : HasSent message body e e' [] logged)
    (hm : m ∈ records logged) :
    m.header = message.header := by
  rw [h.record, List.nil_append, records_toBytes, List.mem_singleton] at hm
  rw [hm, logRecord]

/-- What is sent on a connection begins with a frame that has the addresses of its ends, and so does
the record of it. -/
theorem Carries.between {sent : Bytes} {m : LogMessage} (h : Carries client server sent m) :
    m.header.Between client server ∧
    ∃ (f : Frame) (rest : Bytes), sent = f.toBytes ++ rest ∧ f.header.Between client server := by
  induction h with
  | @request connection logFd c rpcId sent logged m hopened hnonneg hlog hsend hm =>
    obtain ⟨e, hexec, rfl⟩ := hsend
    obtain ⟨-, message, hsent, -, -, hclient, hserver⟩ :=
      hexec.of_wp (wp_rpcSendReq_hasSent hlog hnonneg c rpcId)
    have hbetween : message.header.Between client server :=
      ⟨hclient.trans hopened.ends.1, hserver.trans hopened.ends.2⟩
    obtain ⟨f, rest, hbytes, hheader, -⟩ := hsent.frame
    exact ⟨by rwa [hsent.header_of_mem hm], f, rest, hbytes, by rwa [hheader]⟩
  | @response connection logFd c before behind m' keystore e sent logged m hopened hnonneg hlog _
      hrecv hsend hm ih =>
    obtain ⟨-, request, requestRest, rfl, hrequest⟩ := ih
    have hstream : [] ++ (request.toBytes ++ (requestRest ++ behind)) =
        request.toBytes ++ requestRest ++ behind := by
      rw [List.append_assoc, List.nil_append]
    obtain ⟨⟨now, hc⟩, -⟩ := hrecv.of_wp (wp_recvStamped_next hstream)
    obtain ⟨e', hexec, rfl⟩ := hsend
    obtain ⟨-, message, hsent, -, hclient, hserver⟩ :=
      hexec.of_wp (wp_rpcSendResp_hasSent hlog hnonneg c)
    rw [Option.some_inj.mp hc] at hclient hserver
    have hbetween : message.header.Between client server :=
      ⟨hclient.trans hrequest.1, hserver.trans hrequest.2⟩
    obtain ⟨f, rest, hbytes, hheader, -⟩ := hsent.frame
    exact ⟨by rwa [hsent.header_of_mem hm], f, rest, hbytes, by rwa [hheader]⟩

theorem LoggedBetween.between {m : LogMessage} (h : LoggedBetween client server m) :
    m.header.Between client server := by
  cases h with
  | sent sent hcarries => exact hcarries.between.1
  | received connection logFd receive sent behind logged m' _ hlog hcarries hreceive hlogged hm =>
    obtain ⟨-, f, rest, rfl, hf⟩ := hcarries.between
    obtain ⟨e, hexec⟩ := hlogged
    rw [List.append_assoc] at hexec
    rcases List.mem_pair.mp hreceive with rfl | rfl
    · obtain ⟨-, now, rfl⟩ := hexec.of_wp (wp_receiveAndLog hlog)
      rw [records_toBytes, List.mem_singleton] at hm
      rw [hm]
      exact hf
    · obtain ⟨-, now, rfl⟩ := hexec.of_wp (wp_receiveAndLog hlog)
      rw [records_toBytes, List.mem_singleton] at hm
      rw [hm]
      exact hf

end Ends

section Shown

variable {client server : InetAddr} {m : LogMessage}

theorem InetAddr.ascii_address (e : InetAddr) : ∀ c ∈ e.address, 0 < c.toNat ∧ c.toNat < 256 := by
  have digits (n : Nat) : ∀ c ∈ percentU n, 0 < c.toNat ∧ c.toNat < 256 := by
    intro c hc
    obtain ⟨d, hd, rfl⟩ := Json.mem_toDigits (by decide) hc
    have hall : ∀ d < 10, 0 < (Nat.digitChar d).toNat ∧ (Nat.digitChar d).toNat < 256 := by decide
    exact hall d hd
  have hdot : 0 < '.'.toNat ∧ '.'.toNat < 256 := by decide
  simp only [address, List.forall_mem_append, List.forall_mem_cons]
  exact ⟨digits _, hdot, digits _, hdot, digits _, hdot, digits _⟩

/-- A client may connect to any address. -/
theorem exists_opened (client server : InetAddr) :
    ∃ connection, connection.sockFd = 5 ∧ Opened client server connection := by
  have hascii := server.ascii_address
  let src : Bytes := server.address.map fun c => .ofNat c.toNat
  have hnul : 0 ∉ src := by
    intro hmem
    obtain ⟨c, hc, hzero⟩ := List.mem_map.mp hmem
    have hnat := congrArg UInt8.toNat hzero
    rw [UInt8.toNat_ofNat_of_lt' (hascii c hc).2] at hnat
    exact absurd hnat (Nat.ne_of_gt (hascii c hc).1)
  have hsrc : chars src = server.address := by
    rw [chars, List.map_map]
    refine (List.map_congr_left fun c hc => ?_).trans (List.map_id _)
    rw [Function.comp_apply, UInt8.toNat_ofNat_of_lt' (hascii c hc).2, Char.ofNat_toNat, id]
  let connection : Connection := {
    sockFd := 5
    clientIp := client.sockAddr.sinAddr
    serverIp := server.sockAddr.sinAddr
    clientPort := client.sockAddr.sinPort
    serverPort := server.sockAddr.sinPort }
  refine ⟨connection, rfl, .connected ⟨src, hnul⟩ hsrc ?_⟩
  have hsocket : (inetEnv client server).act () .socket (.ok 5) () := trivial
  have hparsed : (inetEnv client server).act () (.inetPton ⟨src, hnul⟩)
      (.ok (some server.sockAddr.sinAddr)) () := fun _ => rfl
  have hconnect : (inetEnv client server).act () (.connect 5 server.sockAddr) (.ok ()) () := trivial
  have hname : (inetEnv client server).act () (.getsockname 5)
      (.ok (client.sockAddr, sockAddrLen)) () := rfl
  exact .call hsocket (.call hparsed (.call hconnect (.call hname (.ret _ ()))))

theorem exists_loggedBetween (client server : InetAddr) : ∃ m, LoggedBetween client server m := by
  obtain ⟨connection, hfd, hopened⟩ := exists_opened client server
  have hlog : 4 ≠ connection.sockFd := by rw [hfd]; decide
  obtain ⟨r, ⟨e, logged⟩, hexec, rfl, message, hsent, -⟩ :=
    (@wp_rpcSendReq_hasSent connection 4 (.fresh ∅) [] hlog (by decide)
      ⟨[], 0, ⟨ascii "ping", by decide⟩⟩ 1).exists_exec (Env.ghost_total (endpointEnv_total _ _ _))
  have hm : logRecord message ∈ records logged := by
    have hrecord : logged = [] ++ (logRecord message).toBytes := hsent.record
    rw [hrecord, List.nil_append, records_toBytes]
    exact List.mem_singleton_self _
  exact ⟨_, .sent e.sent (.request hopened (by decide) hlog ⟨e, hexec, rfl⟩ hm)⟩

theorem RPCHeader.Between.dotted {h : RPCHeader} (hbetween : h.Between client server) :
    dotted h.clientIp h.clientPort = client.reversed.text ∧
    dotted h.serverIp h.serverPort = server.reversed.text := by
  rw [← dotted_sockAddr, ← dotted_sockAddr, ← hbetween.1, ← hbetween.2]
  exact ⟨rfl, rfl⟩

/-- `dumplogfile` shows both ends with their bytes in reverse order. -/
theorem LoggedBetween.dumped (h : LoggedBetween client server m) {fd : Fd} {file : Bytes}
    {pc : DumpPc} (hdumps : Dumps fd file pc) {i : Nat} (hi : (records file)[i]? = some m) :
    (labelled (memberLabel "client" "      ") pc.printed.stdout)[i]? = some client.reversed.text ∧
    (labelled (memberLabel "server" "      ") pc.printed.stdout)[i]? =
      some server.reversed.text := by
  have hclient : labelled (memberLabel "client" "      ") pc.printed.stdout =
      (records file).map fun m => dotted m.header.clientIp m.header.clientPort := by
    rw [List.map_eq_flatMap, ← funext labelledIn_client]
    exact hdumps.labelled_stdout _
  have hserver : labelled (memberLabel "server" "      ") pc.printed.stdout =
      (records file).map fun m => dotted m.header.serverIp m.header.serverPort := by
    rw [List.map_eq_flatMap, ← funext labelledIn_server]
    exact hdumps.labelled_stdout _
  rw [hclient, hserver, List.getElem?_map, List.getElem?_map, hi, ← h.between.dotted.1,
    ← h.between.dotted.2]
  exact ⟨rfl, rfl⟩

/-- `RPCHeader::pretty_print` shows both ends with their bytes in reverse order. -/
theorem LoggedBetween.prettyPrinted (h : LoggedBetween client server m) :
    (labelled "\tclient:  ".toList m.header.prettyPrint).head? = some client.reversed.text ∧
    (labelled "\tserver:  ".toList m.header.prettyPrint).head? = some server.reversed.text := by
  have hquote (ip : UInt32) (port : UInt16) : upToQuote (dotted ip port) = dotted ip port := by
    have hrest := @upToQuote_dotted ip port [] rfl
    rwa [List.append_nil] at hrest
  rw [head_labelled_prettyPrint (headerLines_client m.header),
    head_labelled_prettyPrint (headerLines_server m.header), hquote, hquote, h.between.dotted.1,
    h.between.dotted.2]
  exact ⟨rfl, rfl⟩

/-- The address reads the same backwards, and the two bytes of the port are equal. -/
def InetAddr.Palindromic (e : InetAddr) : Prop := e.a = e.d ∧ e.b = e.c ∧ htons e.port = e.port

theorem InetAddr.reversed_eq_iff (e : InetAddr) : e.reversed = e ↔ e.Palindromic := by
  obtain ⟨a, b, c, d, port⟩ := e
  simp only [reversed, Palindromic, InetAddr.mk.injEq]
  constructor
  · rintro ⟨h, h', -, -, hport⟩
    exact ⟨h.symm, h'.symm, hport⟩
  · rintro ⟨h, h', hport⟩
    exact ⟨h.symm, h'.symm, h', h, hport⟩

theorem ShownAsTheyAre.palindromic (h : ShownAsTheyAre client server) :
    client.Palindromic ∧ server.Palindromic := by
  obtain ⟨m, hm⟩ := exists_loggedBetween client server
  obtain ⟨-, hclient, hserver⟩ := h m hm
  obtain ⟨hclient', hserver'⟩ := hm.prettyPrinted
  rw [hclient', Option.some_inj] at hclient
  rw [hserver', Option.some_inj] at hserver
  exact ⟨client.reversed_eq_iff.mp (InetAddr.text_inj hclient),
    server.reversed_eq_iff.mp (InetAddr.text_inj hserver)⟩

/-- Both ends are shown as they are if and only if their bytes read the same backwards. -/
theorem shownAsTheyAre_iff (client server : InetAddr) :
    ShownAsTheyAre client server ↔ client.Palindromic ∧ server.Palindromic := by
  constructor
  · exact ShownAsTheyAre.palindromic
  · rintro ⟨hclient, hserver⟩ m hm
    rw [← InetAddr.reversed_eq_iff] at hclient hserver
    refine ⟨fun fd file pc hdumps i hi => ?_, ?_⟩
    · have hdumped := hm.dumped hdumps hi
      rwa [hclient, hserver] at hdumped
    · have hprinted := hm.prettyPrinted
      rwa [hclient, hserver] at hprinted

/-- A server at 10.0.0.1:12345 is shown as 1.0.0.10:14640. -/
theorem not_shownAsTheyAre_ten :
    ¬ShownAsTheyAre ⟨10, 0, 0, 2, 40000⟩ ⟨10, 0, 0, 1, 12345⟩ ∧
    InetAddr.reversed ⟨10, 0, 0, 1, 12345⟩ = ⟨1, 0, 0, 10, 14640⟩ := by
  constructor
  · intro h
    exact absurd h.palindromic.2.1 (by decide)
  · decide

end Shown

end SoftwareDynamics.Network

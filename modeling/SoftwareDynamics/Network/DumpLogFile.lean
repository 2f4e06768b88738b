import SoftwareDynamics.Network.Rpc

/-! `dumplogfile.cc`: what it prints of a record of a log file, and the loop that reads the
records. -/

namespace SoftwareDynamics.Network

open ProofKit Prog

section Records

/-- A record of a log file. -/
structure LogMessage where
  header : RPCHeader
  body : Octets 24
  deriving DecidableEq

/-- `sizeof(LogMessage)` -/
def logMessageSize : Nat := 96

namespace LogMessage

def toBytes (m : LogMessage) : Bytes := m.header.toBytes ++ m.body.1

def ofBytes (bs : Bytes) : LogMessage :=
  ⟨.ofBytes (bs.take headerSize), .fit 24 (bs.drop headerSize)⟩

@[simp] theorem toBytes_length (m : LogMessage) : m.toBytes.length = logMessageSize := by
  rw [toBytes, List.length_append, m.header.toBytes_length, m.body.2]
  rfl

@[simp] theorem ofBytes_toBytes (m : LogMessage) : ofBytes m.toBytes = m := by
  rw [ofBytes, toBytes, List.take_left' m.header.toBytes_length,
    List.drop_left' m.header.toBytes_length, RPCHeader.ofBytes_toBytes, Octets.fit_eq m.body.2]

theorem toBytes_ofBytes {bs : Bytes} (h : bs.length = logMessageSize) :
    (ofBytes bs).toBytes = bs := by
  have hheader : (bs.take headerSize).length = headerSize := by
    rw [List.length_take, h]
    rfl
  have hbody : (bs.drop headerSize).length = 24 := by
    rw [List.length_drop, h]
    rfl
  rw [ofBytes, toBytes, RPCHeader.toBytes_ofBytes hheader, Octets.fit_eq hbody,
    List.take_append_drop]

end LogMessage

/-- The complete records of a log file. -/
def records (file : Bytes) : List LogMessage :=
  (List.range (file.length / logMessageSize)).map fun i =>
    .ofBytes ((file.drop (logMessageSize * i)).take logMessageSize)

theorem records_append {file : Bytes} (more : Bytes) (h : logMessageSize ∣ file.length) :
    records (file ++ more) = records file ++ records more := by
  obtain ⟨n, hn⟩ := h
  have hsize : 0 < logMessageSize := by decide
  have hcount : (file ++ more).length / logMessageSize = n + more.length / logMessageSize := by
    rw [List.length_append, hn, Nat.mul_add_div hsize]
  rw [records, hcount, List.range_add, List.map_append, List.map_map, records, hn,
    Nat.mul_div_cancel_left n hsize]
  congr 1
  · apply List.map_congr_left
    intro i hi
    have hi := Nat.mul_le_mul_left logMessageSize (List.mem_range.mp hi)
    rw [Nat.mul_succ] at hi
    rw [List.drop_append_of_le_length (by omega),
      List.take_append_of_le_length (by rw [List.length_drop]; omega)]
  · apply List.map_congr_left
    intro i _
    rw [Function.comp_apply, Nat.mul_add, ← hn, List.drop_length_add_append]

theorem records_short {file : Bytes} (h : file.length < logMessageSize) : records file = [] := by
  rw [records, Nat.div_eq_of_lt h]
  rfl

@[simp] theorem records_toBytes (m : LogMessage) : records m.toBytes = [m] := by
  simp [records, List.take_of_length_le (Nat.le_of_eq m.toBytes_length),
    Nat.div_self (show 0 < logMessageSize by decide)]

theorem records_cons (m : LogMessage) (rest : Bytes) :
    records (m.toBytes ++ rest) = m :: records rest := by
  rw [records_append rest ⟨1, m.toBytes_length⟩, records_toBytes]
  rfl

theorem records_of_le {file : Bytes} (h : logMessageSize ≤ file.length) :
    records file =
      .ofBytes (file.take logMessageSize) :: records (file.drop logMessageSize) := by
  have hrecords := records_cons (.ofBytes (file.take logMessageSize)) (file.drop logMessageSize)
  rwa [LogMessage.toBytes_ofBytes (List.length_take_of_le h), List.take_append_drop] at hrecords

theorem flatMap_records {file : Bytes} (h : logMessageSize ∣ file.length) :
    (records file).flatMap LogMessage.toBytes = file := by
  obtain ⟨n, hn⟩ := h
  induction n generalizing file with
  | zero =>
    obtain rfl := List.length_eq_zero_iff.mp hn
    rfl
  | succ n ih =>
    rw [Nat.mul_succ] at hn
    have hle : logMessageSize ≤ file.length := by omega
    rw [records_of_le hle, List.flatMap_cons,
      LogMessage.toBytes_ofBytes (List.length_take_of_le hle),
      ih (by rw [List.length_drop]; omega), List.take_append_drop]

/-- What is written behind a file leaves its complete records as they are. -/
theorem records_prefix_append (file more : Bytes) : records file <+: records (file ++ more) := by
  let complete := file.take (logMessageSize * (file.length / logMessageSize))
  let rest := file.drop (logMessageSize * (file.length / logMessageSize))
  have hsplit : file = complete ++ rest := (List.take_append_drop _ _).symm
  have hdvd : logMessageSize ∣ complete.length :=
    ⟨_, List.length_take_of_le (Nat.mul_div_le _ _)⟩
  have hrest : rest.length < logMessageSize := by
    have hmod := Nat.mod_lt file.length (show 0 < logMessageSize by decide)
    have hdiv := Nat.div_add_mod file.length logMessageSize
    rw [List.length_drop]
    omega
  rw [hsplit, List.append_assoc, records_append _ hdvd, records_append _ hdvd, records_short hrest,
    List.append_nil]
  exact List.prefix_append _ _

/-- The bytes of a record are in the file, behind a number of complete records. -/
theorem exists_of_mem_records {file : Bytes} {m : LogMessage} (h : m ∈ records file) :
    ∃ i, (file.drop (logMessageSize * i)).take logMessageSize = m.toBytes := by
  obtain ⟨i, hi, rfl⟩ := List.mem_map.mp h
  have hle := Nat.mul_le_mul_left logMessageSize (List.mem_range.mp hi)
  have hfile := Nat.mul_div_le file.length logMessageSize
  rw [Nat.mul_succ] at hle
  refine ⟨i, (LogMessage.toBytes_ofBytes ?_).symm⟩
  rw [List.length_take, List.length_drop]
  omega

theorem records_flatMap (ms : List LogMessage) : records (ms.flatMap LogMessage.toBytes) = ms := by
  induction ms with
  | nil => rfl
  | cons m ms ih => rw [List.flatMap_cons, records_cons, ih]

theorem length_flatMap_toBytes (ms : List LogMessage) :
    (ms.flatMap LogMessage.toBytes).length = logMessageSize * ms.length := by
  induction ms with
  | nil => rfl
  | cons m ms ih =>
    rw [List.flatMap_cons, List.length_append, m.toBytes_length, ih, List.length_cons,
      Nat.mul_succ, Nat.add_comm]

end Records

section Printing

def messageTypeStr (messageType : RpcMessageType) : Bytes :=
  if messageType = .Request then ascii "REQUEST"
  else if messageType = .Response then ascii "RESPONSE"
  else ascii "UNRECOGNIZED"

def statusStr (status : RpcStatus) : Bytes :=
  if status = .Ok then ascii "OK"
  else if status = .BadArg then ascii "BAD_ARG"
  else if status = .NotFound then ascii "NOT_FOUND"
  else ascii "UNRECOGNIZED"

/-- `%u` and `PRIu64` -/
def percentU (n : Nat) : List Char := Nat.toDigits 10 n

/-- `%d`, of the bits of an argument that is unsigned in the source. -/
def percentD (x : UInt32) : List Char :=
  match x.toInt32.toInt with
  | .ofNat n => percentU n
  | .negSucc n => '-' :: percentU (n + 1)

/-- `%02x` of a `char`, which is extended with its sign. -/
def percent02x (c : UInt8) : List Char :=
  (Nat.toDigits 16 c.toInt8.toInt32.toUInt32.toNat).leftpad 2 '0'

/-- `%d.%d.%d.%d:%d` of an address and its port. -/
def dotted (ip : UInt32) (port : UInt16) : List Char :=
  percentD ((ip &&& 0xff000000) >>> 24) ++ '.' :: percentD ((ip &&& 0x00ff0000) >>> 16) ++
    '.' :: percentD ((ip &&& 0x0000ff00) >>> 8) ++ '.' :: percentD (ip &&& 0x000000ff) ++
    ':' :: percentD port.toUInt32

/-- The line of `fhexdumpn` for the bytes from `i` on. -/
def hexdumpLine (s : Bytes) (i : Nat) : List Char :=
  (List.range 8).flatMap (fun j =>
    match s[i + j]? with
    | none => "   ".toList
    | some c => percent02x c ++ [' ']) ++
  ['|'] ++
  ((List.range 8).takeWhile (fun j => i + j < s.length)).map (fun j =>
    -- The source looks at the index of the byte here.
    if j < 0x20 || j > 0x7e then '.'
    else .ofNat (s.getD (i + j) 0).toNat) ++
  "|\\n".toList

/-- `fhexdumpn`, of all bytes of a string. -/
def fhexdumpn (s : Bytes) : List Char :=
  (List.range ((s.length + 7) / 8)).flatMap fun line => hexdumpLine s (8 * line)

/-- `"s"` -/
def quoted (s : List Char) : List Char := '"' :: s ++ ['"']

/-- A line of a record: a name, the gap behind its colon, and a value. -/
def recordLine (name gap : String) (value : List Char) : List Char :=
  '\t' :: quoted name.toList ++ ':' :: gap.toList ++ value

/-- What is printed of a record. -/
def recordText (m : LogMessage) : List Char :=
  "\x7b\n".toList ++
  recordLine "rpc_id" "      " (percentD m.header.rpcId) ++ ",\n".toList ++
  recordLine "parent" "      " (percentD m.header.parent) ++ ",\n".toList ++
  recordLine "t1_us" "       " (percentU m.header.reqSendTimeUs.toNat) ++ ",\n".toList ++
  recordLine "t2_us" "       " (percentU m.header.reqRecvTimeUs.toNat) ++ ",\n".toList ++
  recordLine "t3_us" "       " (percentU m.header.resSendTimeUs.toNat) ++ ",\n".toList ++
  recordLine "t4_us" "       " (percentU m.header.resRecvTimeUs.toNat) ++ ",\n".toList ++
  recordLine "client" "      " (quoted (dotted m.header.clientIp m.header.clientPort)) ++
    ",\n".toList ++
  recordLine "server" "      " (quoted (dotted m.header.serverIp m.header.serverPort)) ++
    ",\n".toList ++
  recordLine "req_len_log" " " (percentU m.header.reqLenLog.toNat) ++ ",\n".toList ++
  recordLine "res_len_log" " " (percentU m.header.resLenLog.toNat) ++ ",\n".toList ++
  recordLine "type" "     " (quoted (fhexdumpn (messageTypeStr m.header.messageType))) ++
    ",\n".toList ++
  recordLine "method" "   " (quoted (fhexdumpn m.header.method.1)) ++ ",\n".toList ++
  recordLine "status" "   " (quoted (fhexdumpn (statusStr m.header.status))) ++ ",\n".toList ++
  recordLine "body" "     " (quoted (fhexdumpn m.body.1)) ++ "\n".toList ++
  "\x7d".toList

end Printing

section Loop

/-- What the program has printed to its standard output, and the messages that it has printed. -/
structure Printed where
  stdout : List Char
  messages : List LogMessage
  deriving DecidableEq

/-- Where the program is: at the head of its loop, or at its end, which is an exit with status 1
after a `read` that failed or gave part of a message. -/
inductive DumpPc
  | loop (isFirstMessage : Bool) (printed : Printed)
  | failedRead (printed : Printed)
  | partialMessage (nBytes : Nat) (printed : Printed)
  | returned (printed : Printed)
  deriving DecidableEq

def Printed.puts (printed : Printed) (s : List Char) : Printed :=
  { printed with stdout := printed.stdout ++ s }

/-- Prints a message. -/
def Printed.message (printed : Printed) (isFirstMessage : Bool) (m : LogMessage) : Printed where
  stdout := printed.stdout ++ (if isFirstMessage then [] else ",\n".toList) ++ recordText m
  messages := printed.messages ++ [m]

/-- The program, once it has opened its log file. -/
def dumpLogFile (logFd : Fd) : Process SysOp SysOp.Result DumpPc where
  code
    | .loop isFirstMessage printed => do
      let some bytes ← sys (.read logFd logMessageSize) | return .failedRead printed
      let nBytes := bytes.1.length
      if nBytes = 0 then return .returned (printed.puts "]\n".toList)
      if nBytes ≠ logMessageSize then return .partialMessage nBytes printed
      return .loop false (printed.message isFirstMessage (.ofBytes bytes.1))
    | pc => return pc
  halted
    | .loop _ _ => false
    | _ => true

/-- Where the program starts. -/
def dumpStart : DumpPc := .loop true ⟨['['], []⟩

/-- A regular file that is open for reading.  The state is what is left to read, and each `read`
gives as much of it as it is asked for. -/
def readEnv (fd : Fd) : Env SysOp SysOp.Result Bytes where
  allows _ op := ∃ count, op = .read fd count
  act left op r left' :=
    match op, r with
    | .read fd' count, r => fd' = fd ∧ r.map Subtype.val = some (left.take count) ∧
      left' = left.drop count
    | _, _ => False

theorem readEnv_total (fd : Fd) : (readEnv fd).Total := by
  rintro left _ ⟨count, rfl⟩
  exact ⟨some ⟨left.take count, List.length_take_le count left⟩, _, rfl, rfl, rfl⟩

/-- The program may end at `pc` when it reads `file`. -/
def Dumps (fd : Fd) (file : Bytes) (pc : DumpPc) : Prop :=
  ∃ left, (dumpLogFile fd).Run (readEnv fd) dumpStart file pc left

/-- Prints messages one after the other. -/
def Printed.messagesFrom (printed : Printed) (isFirstMessage : Bool) : List LogMessage → Printed
  | [] => printed
  | m :: ms => (printed.message isFirstMessage m).messagesFrom false ms

theorem Printed.messagesFrom_messages (printed : Printed) (isFirstMessage : Bool)
    (ms : List LogMessage) :
    (printed.messagesFrom isFirstMessage ms).messages = printed.messages ++ ms := by
  induction ms generalizing printed isFirstMessage with
  | nil => exact (List.append_nil _).symm
  | cons m ms ih => rw [messagesFrom, ih, message, List.append_assoc, List.singleton_append]

/-- Where the loop ends on what is left to read: it prints all complete records, and complains about
the bytes behind them, if there are any. -/
def dumpEnd (isFirstMessage : Bool) (printed : Printed) (left : Bytes) : DumpPc :=
  let printed := printed.messagesFrom isFirstMessage (records left)
  if left.length % logMessageSize = 0 then .returned (printed.puts "]\n".toList)
  else .partialMessage (left.length % logMessageSize) printed

/-- What the program has printed when it ends. -/
def DumpPc.printed : DumpPc → Printed
  | loop _ printed | failedRead printed | partialMessage _ printed | returned printed => printed

theorem dumpEnd_messages (isFirstMessage : Bool) (printed : Printed) (left : Bytes) :
    (dumpEnd isFirstMessage printed left).printed.messages = printed.messages ++ records left := by
  rw [dumpEnd, ← printed.messagesFrom_messages isFirstMessage]
  split <;> rfl

theorem dumpEnd_record (isFirstMessage : Bool) (printed : Printed) {left : Bytes}
    (h : logMessageSize ≤ left.length) :
    dumpEnd isFirstMessage printed left =
      dumpEnd false (printed.message isFirstMessage (.ofBytes (left.take logMessageSize)))
        (left.drop logMessageSize) := by
  have hmod : left.length % logMessageSize =
      (left.drop logMessageSize).length % logMessageSize := by
    rw [List.length_drop, Nat.mod_eq_sub_mod h]
  simp only [dumpEnd, records_of_le h, hmod]
  rfl

theorem within_dump (fd : Fd) {n : Nat} {left : Bytes} (isFirstMessage : Bool) (printed : Printed)
    (hn : left.length < logMessageSize * n) :
    (dumpLogFile fd).Within (readEnv fd)
      (fun pc _ => pc = dumpEnd isFirstMessage printed left) n (.loop isFirstMessage printed)
      left := by
  induction n generalizing left isFirstMessage printed with
  | zero => omega
  | succ n ih =>
    apply Process.Within.of_round rfl
    change wp (readEnv fd) (sys (.read fd logMessageSize) >>= _) _ _
    rw [wp_bind, wp_perform]
    refine ⟨⟨_, rfl⟩, ?_⟩
    rintro r left' ⟨-, hr, rfl⟩
    obtain ⟨bytes, rfl, hbytes⟩ := Option.map_eq_some_iff.mp hr
    have hlength : bytes.1.length = min logMessageSize left.length := by
      rw [hbytes, List.length_take]
    dsimp only
    by_cases hzero : left.length = 0
    · rw [if_pos (by omega)]
      apply Process.Within.of_halted rfl
      rw [dumpEnd, records_short (by rw [hzero]; decide), hzero]
      rfl
    · rw [if_neg (by rw [hlength, logMessageSize]; omega)]
      by_cases hfull : logMessageSize ≤ left.length
      · rw [if_neg (by omega), hbytes, dumpEnd_record isFirstMessage printed hfull]
        apply ih
        rw [Nat.mul_succ] at hn
        rw [List.length_drop]
        omega
      · rw [if_pos (by omega)]
        apply Process.Within.of_halted rfl
        have hmod : left.length % logMessageSize = left.length := Nat.mod_eq_of_lt (by omega)
        rw [dumpEnd, records_short (by omega), hmod, if_neg hzero, hlength,
          Nat.min_eq_right (by omega)]
        rfl

/-- The program ends as `dumpEnd` says, whatever file it reads. -/
theorem dumps_iff (fd : Fd) (file : Bytes) (pc : DumpPc) :
    Dumps fd file pc ↔ pc = dumpEnd true ⟨['['], []⟩ file := by
  have hwithin := @within_dump fd (file.length / logMessageSize + 1) file true ⟨['['], []⟩
    (Nat.lt_mul_div_succ _ (by decide))
  constructor
  · rintro ⟨left, hrun⟩
    exact hrun.of_within hwithin
  · rintro rfl
    obtain ⟨pc, left, hrun⟩ := hwithin.exists_run (readEnv_total fd)
    obtain rfl := hrun.of_within hwithin
    exact ⟨left, hrun⟩

end Loop

end SoftwareDynamics.Network

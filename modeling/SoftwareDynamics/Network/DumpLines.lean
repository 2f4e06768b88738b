import SoftwareDynamics.Network.DumpJson
import SoftwareDynamics.ProofKit.Text

/-! The lines that `dumplogfile` prints of a record, and `RPCHeader::pretty_print` of a header, and
what stands behind their labels. -/

namespace SoftwareDynamics.Network

open ProofKit Prog

section Printing

/-- The characters of a string. -/
def chars (bs : Bytes) : List Char := bs.map fun b => .ofNat b.toNat

/-- `%x` -/
def percentX (n : Nat) : List Char := Nat.toDigits 16 n

/-- `%.8s`, which stops at a zero byte. -/
def percent8s (bs : Bytes) : List Char := chars ((bs.take 8).takeWhile (· ≠ 0))

/-- A time in seconds and microseconds. -/
def secondsText (timeUs : UInt64) : List Char :=
  percentU (timeUs / 1000000).toNat ++ 's' :: ' ' :: percentU (timeUs % 1000000).toNat ++ ['u', 's']

/-- A line of a header: a label and a value. -/
def headerLine (label : String) (value : List Char) : List Char :=
  '\t' :: label.toList ++ value ++ ['\n']

def RPCHeader.prettyPrint (h : RPCHeader) : List Char :=
  "RPCHeader:\n".toList ++
  headerLine "rpc_id:  0x" (percentX h.rpcId.toNat) ++
  headerLine "parent:  0x" (percentX h.parent.toNat) ++
  headerLine "t1:      " (secondsText h.reqSendTimeUs) ++
  headerLine "t2:      " (secondsText h.reqRecvTimeUs) ++
  headerLine "t3:      " (secondsText h.resSendTimeUs) ++
  headerLine "t4:      " (secondsText h.resRecvTimeUs) ++
  headerLine "client:  " (dotted h.clientIp h.clientPort) ++
  headerLine "server:  " (dotted h.serverIp h.serverPort) ++
  headerLine "req_len: 2^" (percentU h.reqLenLog.toNat) ++
  headerLine "res_len: 2^" (percentU h.resLenLog.toNat) ++
  headerLine "type:    " (chars (messageTypeStr h.messageType)) ++
  headerLine "method:  " (percent8s h.method.1) ++
  headerLine "status:  " (chars (statusStr h.status))

/-- What a line with the member of this name begins with, in the output of `dumplogfile`. -/
def memberLabel (name gap : String) : List Char :=
  '\t' :: quoted name.toList ++ ':' :: gap.toList ++ ['"']

end Printing

section Lines

theorem newline_of_plain {cs : List Char} (h : Json.IsPlainText cs) : '\n' ∉ cs :=
  fun hmem => absurd (h _ hmem) (by decide)

/-- A newline does not stand in a string, but its escape may. -/
theorem newline_of_isString {cs : List Char} (h : Json.IsString cs) : '\n' ∉ cs := by
  induction h with
  | nil => exact List.not_mem_nil
  | plain hc _ ih =>
    rw [List.mem_cons]
    rintro (rfl | hmem)
    · exact absurd hc (by decide)
    · exact ih hmem
  | escape hc _ ih =>
    rw [List.mem_cons, List.mem_cons]
    rintro (h | rfl | hmem)
    · exact absurd h (by decide)
    · exact absurd hc (by decide)
    · exact ih hmem
  | unicode _ hhex _ ih =>
    rw [List.cons_append, List.cons_append, List.mem_cons, List.mem_cons, List.mem_append]
    rintro (h | h | hmem | hmem)
    · exact absurd h (by decide)
    · exact absurd h (by decide)
    · exact absurd (hhex _ hmem) (by unfold Json.IsHexDigit; decide)
    · exact ih hmem

/-- The lines of a record behind its opening brace. -/
def recordLines (m : LogMessage) : List (List Char) := [
  recordLine "rpc_id" "      " (percentD m.header.rpcId) ++ [','],
  recordLine "parent" "      " (percentD m.header.parent) ++ [','],
  recordLine "t1_us" "       " (percentU m.header.reqSendTimeUs.toNat) ++ [','],
  recordLine "t2_us" "       " (percentU m.header.reqRecvTimeUs.toNat) ++ [','],
  recordLine "t3_us" "       " (percentU m.header.resSendTimeUs.toNat) ++ [','],
  recordLine "t4_us" "       " (percentU m.header.resRecvTimeUs.toNat) ++ [','],
  recordLine "client" "      " (quoted (dotted m.header.clientIp m.header.clientPort)) ++ [','],
  recordLine "server" "      " (quoted (dotted m.header.serverIp m.header.serverPort)) ++ [','],
  recordLine "req_len_log" " " (percentU m.header.reqLenLog.toNat) ++ [','],
  recordLine "res_len_log" " " (percentU m.header.resLenLog.toNat) ++ [','],
  recordLine "type" "     " (quoted (fhexdumpn (messageTypeStr m.header.messageType))) ++ [','],
  recordLine "method" "   " (quoted (fhexdumpn m.header.method.1)) ++ [','],
  recordLine "status" "   " (quoted (fhexdumpn (statusStr m.header.status))) ++ [','],
  recordLine "body" "     " (quoted (fhexdumpn m.body.1))]

theorem recordText_eq (m : LogMessage) :
    recordText m = '{' :: '\n' :: (recordLines m).flatMap (· ++ ['\n']) ++ ['}'] := by
  have hopen : "\x7b\n".toList = ['{', '\n'] := by decide
  have hsep : ",\n".toList = [',', '\n'] := by decide
  have hend : "\n".toList = ['\n'] := by decide
  have hclose : "\x7d".toList = ['}'] := by decide
  unfold recordText recordLines
  rw [hopen, hsep, hend, hclose]
  simp only [List.flatMap_cons, List.flatMap_nil, List.append_assoc, List.cons_append,
    List.nil_append, List.append_nil]

theorem newline_recordLine {name gap : String} {value sep : List Char}
    (hname : '\n' ∉ '"' :: name.toList ++ ':' :: gap.toList) (hvalue : '\n' ∉ value)
    (hsep : '\n' ∉ sep) : '\n' ∉ recordLine name gap value ++ sep := by
  simp_all [recordLine, quoted]

theorem newline_quoted {cs : List Char} (h : '\n' ∉ cs) : '\n' ∉ quoted cs := by
  simpa [quoted] using h

theorem newline_recordLines (m : LogMessage) : ∀ l ∈ recordLines m, '\n' ∉ l := by
  have signed (x : UInt32) : '\n' ∉ percentD x := newline_of_plain fun _ => plain_percentD
  have unsigned (n : Nat) : '\n' ∉ percentU n :=
    newline_of_plain fun _ => plain_of_toDigits (by decide) (by decide)
  have dump (s : Bytes) : '\n' ∉ quoted (fhexdumpn s) :=
    newline_quoted (newline_of_isString (isString_fhexdumpn s))
  have address (ip : UInt32) (port : UInt16) : '\n' ∉ quoted (dotted ip port) :=
    newline_quoted (newline_of_isString (isString_dotted ip port))
  have body : '\n' ∉ recordLine "body" "     " (quoted (fhexdumpn m.body.1)) ++ [] :=
    newline_recordLine (by decide) (dump m.body.1) List.not_mem_nil
  rw [List.append_nil] at body
  simp only [recordLines, List.forall_mem_cons]
  refine ⟨newline_recordLine (by decide) (signed _) (by decide),
    newline_recordLine (by decide) (signed _) (by decide),
    newline_recordLine (by decide) (unsigned _) (by decide),
    newline_recordLine (by decide) (unsigned _) (by decide),
    newline_recordLine (by decide) (unsigned _) (by decide),
    newline_recordLine (by decide) (unsigned _) (by decide),
    newline_recordLine (by decide) (address _ _) (by decide),
    newline_recordLine (by decide) (address _ _) (by decide),
    newline_recordLine (by decide) (unsigned _) (by decide),
    newline_recordLine (by decide) (unsigned _) (by decide),
    newline_recordLine (by decide) (dump _) (by decide),
    newline_recordLine (by decide) (dump _) (by decide),
    newline_recordLine (by decide) (dump _) (by decide), body, nofun⟩

/-- What stands behind a label in the lines of a record. -/
def labelledIn (label : List Char) (m : LogMessage) : List (List Char) :=
  ((recordLines m).filterMap (·.dropPrefix? label)).map upToQuote

theorem labelled_recordText (label before behind : List Char) (m : LogMessage) :
    labelled label (before ++ recordText m ++ behind) = labelled label (before ++ ['{']) ++
      (labelledIn label m ++ labelled label ('}' :: behind)) := by
  have htext : before ++ recordText m ++ behind = before ++ ['{'] ++
      '\n' :: ((recordLines m).flatMap (· ++ ['\n']) ++ '}' :: behind) := by
    rw [recordText_eq]
    simp only [List.append_assoc, List.cons_append, List.nil_append]
  rw [htext, labelled_append, labelled_lines (newline_recordLines m)]
  rfl

/-- A line that begins with a brace has no label that begins with a tab. -/
theorem labelled_records (label before behind : List Char) (m : LogMessage)
    (ms : List LogMessage) :
    labelled ('\t' :: label) (before ++ recordText m ++
        (ms.flatMap (fun m => ',' :: ['\n'] ++ recordText m) ++ behind)) =
      labelled ('\t' :: label) (before ++ ['{']) ++
        ((m :: ms).flatMap (labelledIn ('\t' :: label)) ++
          labelled ('\t' :: label) ('}' :: behind)) := by
  induction ms generalizing before m with
  | nil =>
    rw [labelled_recordText, List.flatMap_cons, List.flatMap_nil, List.flatMap_nil,
      List.append_nil, List.nil_append]
  | cons m' ms ih =>
    have hnext : labelled ('\t' :: label) (['}', ','] ++ '\n' :: ([] ++ recordText m' ++
          (ms.flatMap (fun m => ',' :: ['\n'] ++ recordText m) ++ behind))) =
        (m' :: ms).flatMap (labelledIn ('\t' :: label)) ++
          labelled ('\t' :: label) ('}' :: behind) := by
      rw [labelled_append, ih]
      rfl
    rw [labelled_recordText, List.flatMap_cons (x := m), List.append_assoc, ← hnext]
    simp only [List.flatMap_cons, List.append_assoc, List.cons_append, List.nil_append]

theorem labelled_messagesFrom (label : List Char) {behind : List Char}
    (hbracket : labelled ('\t' :: label) ('[' :: behind) = [])
    (hbrace : labelled ('\t' :: label) ('}' :: behind) = []) (ms : List LogMessage) :
    labelled ('\t' :: label) (((⟨['['], []⟩ : Printed).messagesFrom true ms).stdout ++ behind) =
      ms.flatMap (labelledIn ('\t' :: label)) := by
  cases ms with
  | nil => exact hbracket
  | cons m ms =>
    have hrecords := labelled_records label ['['] behind m ms
    rw [hbrace, List.append_nil] at hrecords
    rw [Printed.messagesFrom, messagesFrom_stdout, List.append_assoc]
    exact hrecords

/-- What stands behind a label in the output for a log file. -/
theorem Dumps.labelled_stdout {fd : Fd} {file : Bytes} {pc : DumpPc} (h : Dumps fd file pc)
    (label : List Char) :
    labelled ('\t' :: label) pc.printed.stdout =
      (records file).flatMap (labelledIn ('\t' :: label)) := by
  have hend : "]\n".toList = [']', '\n'] := by decide
  obtain rfl := (dumps_iff fd file pc).mp h
  rw [dumpEnd]
  split
  · rw [DumpPc.printed, Printed.puts, hend]
    exact labelled_messagesFrom label rfl rfl _
  · have hrecords := @labelled_messagesFrom label [] rfl rfl (records file)
    rwa [List.append_nil] at hrecords

theorem upToQuote_dotted (ip : UInt32) (port : UInt16) {rest : List Char}
    (hrest : upToQuote rest = []) : upToQuote (dotted ip port ++ rest) = dotted ip port :=
  upToQuote_append (fun hmem => absurd (plain_dotted ip port _ hmem) (by decide)) hrest

theorem labelledIn_client (m : LogMessage) :
    labelledIn (memberLabel "client" "      ") m =
      [dotted m.header.clientIp m.header.clientPort] := by
  have hline : (recordLines m).filterMap (·.dropPrefix? (memberLabel "client" "      ")) =
      [dotted m.header.clientIp m.header.clientPort ++ ['"', ',']] := by
    simp [recordLines, recordLine, memberLabel, quoted, List.dropPrefix?]
  rw [labelledIn, hline, List.map_singleton, upToQuote_dotted _ _ rfl]

theorem labelledIn_server (m : LogMessage) :
    labelledIn (memberLabel "server" "      ") m =
      [dotted m.header.serverIp m.header.serverPort] := by
  have hline : (recordLines m).filterMap (·.dropPrefix? (memberLabel "server" "      ")) =
      [dotted m.header.serverIp m.header.serverPort ++ ['"', ',']] := by
    simp [recordLines, recordLine, memberLabel, quoted, List.dropPrefix?]
  rw [labelledIn, hline, List.map_singleton, upToQuote_dotted _ _ rfl]

/-- The lines of a header up to the addresses. -/
def headerLines (h : RPCHeader) : List (List Char) := [
  "RPCHeader:".toList,
  '\t' :: "rpc_id:  0x".toList ++ percentX h.rpcId.toNat,
  '\t' :: "parent:  0x".toList ++ percentX h.parent.toNat,
  '\t' :: "t1:      ".toList ++ secondsText h.reqSendTimeUs,
  '\t' :: "t2:      ".toList ++ secondsText h.reqRecvTimeUs,
  '\t' :: "t3:      ".toList ++ secondsText h.resSendTimeUs,
  '\t' :: "t4:      ".toList ++ secondsText h.resRecvTimeUs,
  '\t' :: "client:  ".toList ++ dotted h.clientIp h.clientPort,
  '\t' :: "server:  ".toList ++ dotted h.serverIp h.serverPort]

theorem newline_headerLines (h : RPCHeader) : ∀ l ∈ headerLines h, '\n' ∉ l := by
  have digits (b n : Nat) (hb : 1 < b) (hb' : b ≤ 16) : '\n' ∉ Nat.toDigits b n :=
    newline_of_plain fun _ => plain_of_toDigits hb hb'
  have hex (n : Nat) : '\n' ∉ percentX n := digits 16 n (by decide) (by decide)
  have time (us : UInt64) : '\n' ∉ secondsText us := by
    have unsigned (n : Nat) : '\n' ∉ percentU n := digits 10 n (by decide) (by decide)
    simp [secondsText, unsigned]
  have address (ip : UInt32) (port : UInt16) : '\n' ∉ dotted ip port :=
    newline_of_plain (plain_dotted ip port)
  have line {label : String} {value : List Char} (hlabel : '\n' ∉ '\t' :: label.toList)
      (hvalue : '\n' ∉ value) : '\n' ∉ '\t' :: label.toList ++ value :=
    fun hmem => (List.mem_append.mp hmem).elim hlabel hvalue
  simp only [headerLines, List.forall_mem_cons]
  exact ⟨by decide, line (by decide) (hex _), line (by decide) (hex _), line (by decide) (time _),
    line (by decide) (time _), line (by decide) (time _), line (by decide) (time _),
    line (by decide) (address _ _), line (by decide) (address _ _), nofun⟩

theorem prettyPrint_eq (h : RPCHeader) :
    ∃ rest, h.prettyPrint = (headerLines h).flatMap (· ++ ['\n']) ++ rest := by
  have htitle : "RPCHeader:\n".toList = "RPCHeader:".toList ++ ['\n'] := by decide
  unfold RPCHeader.prettyPrint headerLine headerLines
  rw [htitle]
  simp only [List.flatMap_cons, List.flatMap_nil, List.append_assoc]
  exact ⟨_, rfl⟩

theorem head_labelled_prettyPrint {h : RPCHeader} {label value : List Char}
    (hline : (headerLines h).filterMap (·.dropPrefix? label) = [value]) :
    (labelled label h.prettyPrint).head? = some (upToQuote value) := by
  obtain ⟨rest, hrest⟩ := prettyPrint_eq h
  rw [hrest, labelled_lines (newline_headerLines h), hline]
  rfl

theorem headerLines_client (h : RPCHeader) :
    (headerLines h).filterMap (·.dropPrefix? "\tclient:  ".toList) =
      [dotted h.clientIp h.clientPort] := by
  simp only [headerLines, List.filterMap_cons, List.filterMap_nil]
  simp [List.dropPrefix?]

theorem headerLines_server (h : RPCHeader) :
    (headerLines h).filterMap (·.dropPrefix? "\tserver:  ".toList) =
      [dotted h.serverIp h.serverPort] := by
  simp only [headerLines, List.filterMap_cons, List.filterMap_nil]
  simp [List.dropPrefix?]

end Lines

end SoftwareDynamics.Network

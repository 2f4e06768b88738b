import SoftwareDynamics.Network.DumpLogFile
import SoftwareDynamics.ProofKit.Json

/-! What `dumplogfile` prints is JSON, whatever bytes are in the records. -/

namespace SoftwareDynamics.Network

open ProofKit Prog Json

section Values

/-- A string of the characters that stand for themselves, as the dumps of bytes are. -/
def hexString (s : Bytes) : Json := .str (fhexdumpn s)

/-- The value of a record. -/
def recordJson (m : LogMessage) : Json := .obj [
  ("rpc_id".toList, .num (percentD m.header.rpcId)),
  ("parent".toList, .num (percentD m.header.parent)),
  ("t1_us".toList, .num (percentU m.header.reqSendTimeUs.toNat)),
  ("t2_us".toList, .num (percentU m.header.reqRecvTimeUs.toNat)),
  ("t3_us".toList, .num (percentU m.header.resSendTimeUs.toNat)),
  ("t4_us".toList, .num (percentU m.header.resRecvTimeUs.toNat)),
  ("client".toList, .str (dotted m.header.clientIp m.header.clientPort)),
  ("server".toList, .str (dotted m.header.serverIp m.header.serverPort)),
  ("req_len_log".toList, .num (percentU m.header.reqLenLog.toNat)),
  ("res_len_log".toList, .num (percentU m.header.resLenLog.toNat)),
  ("type".toList, hexString (messageTypeStr m.header.messageType)),
  ("method".toList, hexString m.header.method.1),
  ("status".toList, hexString (statusStr m.header.status)),
  ("body".toList, hexString m.body.1)]

/-- The names of an object's members. -/
def memberNames : Json → List (List Char)
  | .obj ms => ms.map Prod.fst
  | _ => []

/-- The names that each object of the array has, in their order. -/
def recordNames : List String :=
  ["rpc_id", "parent", "t1_us", "t2_us", "t3_us", "t4_us", "client", "server", "req_len_log",
    "res_len_log", "type", "method", "status", "body"]

theorem memberNames_recordJson (m : LogMessage) :
    memberNames (recordJson m) = recordNames.map String.toList := rfl

end Values

section Pieces

theorem isNumber_percentU (n : Nat) : IsNumber (percentU n) := isNumber_toDigits n

theorem isNumber_percentD (x : UInt32) : IsNumber (percentD x) := by
  unfold percentD
  split
  · exact isNumber_toDigits _
  · exact isNumber_neg_toDigits _

theorem plain_of_toDigits {b n : Nat} (hb : 1 < b) (hb' : b ≤ 16) {c : Char}
    (h : c ∈ Nat.toDigits b n) : IsPlain c := by
  obtain ⟨d, hd, rfl⟩ := mem_toDigits hb h
  have hall : ∀ d < 16, IsPlain (Nat.digitChar d) := by decide
  exact hall d (by omega)

theorem plain_percentD {x : UInt32} {c : Char} (h : c ∈ percentD x) : IsPlain c := by
  unfold percentD at h
  split at h
  · exact plain_of_toDigits (by decide) (by decide) h
  · rcases List.mem_cons.mp h with rfl | h
    · decide
    · exact plain_of_toDigits (by decide) (by decide) h

theorem plain_percent02x {x : UInt8} {c : Char} (h : c ∈ percent02x x) : IsPlain c := by
  unfold percent02x List.leftpad at h
  rcases List.mem_append.mp h with h | h
  · rw [List.eq_of_mem_replicate h]
    decide
  · exact plain_of_toDigits (by decide) (by decide) h

theorem plain_dotted (ip : UInt32) (port : UInt16) : IsPlainText (dotted ip port) := by
  have part (x : UInt32) : ∀ c ∈ percentD x, IsPlain c := fun _ => plain_percentD
  have hdot : IsPlain '.' := by decide
  have hcolon : IsPlain ':' := by decide
  simp only [IsPlainText, dotted, List.forall_mem_append, List.forall_mem_cons]
  exact ⟨⟨⟨⟨part _, hdot, part _⟩, hdot, part _⟩, hdot, part _⟩, hcolon, part _⟩

theorem isString_dotted (ip : UInt32) (port : UInt16) : IsString (dotted ip port) :=
  .of_plain (plain_dotted ip port)

/-- A dump has a dot for each byte, and an escape at the end of each line. -/
theorem isString_hexdumpLine (s : Bytes) (i : Nat) : IsString (hexdumpLine s i) := by
  have hspace : IsPlain ' ' := by decide
  have hbar : IsPlain '|' := by decide
  have hdot : IsPlain '.' := by decide
  have hend : "|\\n".toList = ['|', '\\', 'n'] := by decide
  have hgap : "   ".toList = [' ', ' ', ' '] := by decide
  unfold hexdumpLine
  refine .append (.append (.append ?_ (.plain hbar .nil)) ?_) ?_
  · refine .flatMap fun j _ => ?_
    split
    · rw [hgap]
      exact .plain hspace (.plain hspace (.plain hspace .nil))
    · exact .append (.of_plain fun _ => plain_percent02x) (.plain hspace .nil)
  · refine .of_plain fun c hc => ?_
    obtain ⟨j, hj, rfl⟩ := List.mem_map.mp hc
    have hlt := List.mem_range.mp ((List.takeWhile_sublist _).subset hj)
    -- The index is below 8, so the first comparison holds of it.
    have hprintable : (decide (j < 0x20) || decide (j > 0x7e)) = true := by
      rw [decide_eq_true (show j < 0x20 by omega), Bool.true_or]
    rw [if_pos hprintable]
    exact hdot
  · rw [hend]
    exact .plain hbar (.escape (by decide) .nil)

theorem isString_fhexdumpn (s : Bytes) : IsString (fhexdumpn s) :=
  .flatMap fun line _ => isString_hexdumpLine s (8 * line)

end Pieces

section Records

theorem member_recordLine (name gap : String) {v : Json} {value ws : List Char}
    (hname : IsPlainText name.toList) (hgap : IsSpace gap.toList) (hv : Json.Value v value)
    (hws : IsSpace ws) :
    Member (name.toList, v) ('\n' :: recordLine name gap value ++ ws) := by
  have hmember : Member (name.toList, v)
      (['\n', '\t'] ++ ('"' :: name.toList ++ ['"']) ++ [] ++ ':' :: (gap.toList ++ value ++ ws)) :=
    .mk (by decide) (.of_plain hname) nofun (.mk hgap hv hws)
  simpa [recordLine, quoted] using hmember

/-- A line that is not the last one of its record. -/
theorem members_recordLine (name gap : String) {v : Json} {value cs : List Char}
    {ms : List (List Char × Json)} (hname : IsPlainText name.toList)
    (hgap : IsSpace gap.toList) (hv : Json.Value v value) (hms : Members ms ('\n' :: cs)) :
    Members ((name.toList, v) :: ms)
      ('\n' :: (recordLine name gap value ++ (",\n".toList ++ cs))) := by
  have hsep : ",\n".toList = [',', '\n'] := by decide
  have hmember := @member_recordLine name gap v value [] hname hgap hv nofun
  rw [List.append_nil] at hmember
  simpa [hsep] using Members.more hmember hms

theorem value_hexString (s : Bytes) : Json.Value (hexString s) (quoted (fhexdumpn s)) :=
  .str (isString_fhexdumpn s)

theorem value_dotted (ip : UInt32) (port : UInt16) :
    Json.Value (.str (dotted ip port)) (quoted (dotted ip port)) :=
  .str (isString_dotted ip port)

/-- The text of a record is an object. -/
theorem value_recordJson (m : LogMessage) : Json.Value (recordJson m) (recordText m) := by
  have hopen : "\x7b\n".toList = ['{', '\n'] := by decide
  have hend : "\n".toList = ['\n'] := by decide
  have hclose : "\x7d".toList = ['}'] := by decide
  have hbody : Members [("body".toList, hexString m.body.1)]
      ('\n' :: (recordLine "body" "     " (quoted (fhexdumpn m.body.1)) ++ ['\n'])) :=
    .last (member_recordLine _ _ (by decide) (by decide) (value_hexString _) (by decide))
  have hmembers :=
    members_recordLine "rpc_id" "      " (by decide) (by decide)
      (.num (isNumber_percentD m.header.rpcId)) <|
    members_recordLine "parent" "      " (by decide) (by decide)
      (.num (isNumber_percentD m.header.parent)) <|
    members_recordLine "t1_us" "       " (by decide) (by decide)
      (.num (isNumber_percentU m.header.reqSendTimeUs.toNat)) <|
    members_recordLine "t2_us" "       " (by decide) (by decide)
      (.num (isNumber_percentU m.header.reqRecvTimeUs.toNat)) <|
    members_recordLine "t3_us" "       " (by decide) (by decide)
      (.num (isNumber_percentU m.header.resSendTimeUs.toNat)) <|
    members_recordLine "t4_us" "       " (by decide) (by decide)
      (.num (isNumber_percentU m.header.resRecvTimeUs.toNat)) <|
    members_recordLine "client" "      " (by decide) (by decide)
      (value_dotted m.header.clientIp m.header.clientPort) <|
    members_recordLine "server" "      " (by decide) (by decide)
      (value_dotted m.header.serverIp m.header.serverPort) <|
    members_recordLine "req_len_log" " " (by decide) (by decide)
      (.num (isNumber_percentU m.header.reqLenLog.toNat)) <|
    members_recordLine "res_len_log" " " (by decide) (by decide)
      (.num (isNumber_percentU m.header.resLenLog.toNat)) <|
    members_recordLine "type" "     " (by decide) (by decide)
      (value_hexString (messageTypeStr m.header.messageType)) <|
    members_recordLine "method" "   " (by decide) (by decide)
      (value_hexString m.header.method.1) <|
    members_recordLine "status" "   " (by decide) (by decide)
      (value_hexString (statusStr m.header.status)) <|
    hbody
  have hobj := Json.Value.obj hmembers
  unfold recordJson recordText
  rw [hopen, hend, hclose]
  simpa only [List.append_assoc, List.cons_append, List.nil_append] using hobj

end Records

section Array

/-- What is printed of messages one after the other. -/
theorem messagesFrom_stdout (printed : Printed) (ms : List LogMessage) :
    (printed.messagesFrom false ms).stdout =
      printed.stdout ++ ms.flatMap fun m => ',' :: ['\n'] ++ recordText m := by
  have hsep : ",\n".toList = [',', '\n'] := by decide
  induction ms generalizing printed with
  | nil => exact (List.append_nil _).symm
  | cons m ms ih =>
    rw [Printed.messagesFrom, ih, Printed.message, List.flatMap_cons, if_neg Bool.false_ne_true,
      hsep]
    simp only [List.append_assoc, List.cons_append, List.nil_append]

/-- The array of the messages, and the end of the line behind it. -/
theorem text_messagesFrom (ms : List LogMessage) :
    Json.Text (.arr (ms.map recordJson))
      (((⟨['['], []⟩ : Printed).messagesFrom true ms).puts
        "]\n".toList).stdout := by
  have hend : "]\n".toList = [']', '\n'] := by decide
  have hvalue : Json.Value (.arr (ms.map recordJson))
      (((⟨['['], []⟩ : Printed).messagesFrom true ms).stdout ++ [']']) := by
    cases ms with
    | nil => exact .emptyArr (show IsSpace [] from nofun)
    | cons m ms =>
      rw [Printed.messagesFrom, messagesFrom_stdout]
      have helements := Elements.of_forall (show IsSpace ['\n'] by decide) value_recordJson
        (show IsSpace [] from nofun) m ms
      exact .arr helements
  have htext : Json.Text (.arr (ms.map recordJson)) ([] ++ _ ++ ['\n']) :=
    .mk nofun hvalue (by decide)
  simpa only [Printed.puts, hend, List.append_assoc, List.cons_append, List.nil_append] using htext

/-- Of a log file that has complete records only, the program prints a JSON array with an object for
each record, and returns. -/
theorem dumped_json (fd : Fd) {file : Bytes} (h : logMessageSize ∣ file.length) :
    ∃ printed, (∀ pc, Dumps fd file pc ↔ pc = .returned printed) ∧
      Json.Text (.arr ((records file).map recordJson)) printed.stdout ∧
      (records file).flatMap LogMessage.toBytes = file ∧
      ∀ v ∈ (records file).map recordJson, memberNames v = recordNames.map String.toList := by
  refine ⟨_, fun pc => ?_, text_messagesFrom (records file), flatMap_records h, ?_⟩
  · rw [dumps_iff, dumpEnd, if_pos (Nat.mod_eq_zero_of_dvd h)]
  · intro v hv
    obtain ⟨m, -, rfl⟩ := List.mem_map.mp hv
    exact memberNames_recordJson m

/-- A log of two records whose bytes are all the same. -/
theorem dumped_json_two :
    let file : Bytes := List.replicate logMessageSize 34 ++ List.replicate logMessageSize 255
    ∃ printed, (∀ pc, Dumps 3 file pc ↔ pc = .returned printed) ∧
      Json.Text (.arr ((records file).map recordJson)) printed.stdout ∧
      (records file).flatMap LogMessage.toBytes = file ∧
      ∀ v ∈ (records file).map recordJson, memberNames v = recordNames.map String.toList :=
  dumped_json 3 (by
    rw [List.length_append, List.length_replicate, List.length_replicate]
    exact ⟨2, rfl⟩)

end Array

end SoftwareDynamics.Network

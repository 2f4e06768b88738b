import SoftwareDynamics.Network.DumpLogFile
import Mathlib.Data.List.Induction

/-! The log file that calls of `log` write, against what `dumplogfile` reads back from it. -/

namespace SoftwareDynamics.Network

open ProofKit Prog

section Calls

/-- What has been written to a log file, and what the `write`s came to: the number of bytes, or
`none` for a failure. -/
structure WrittenFile where
  bytes : Bytes
  results : List (Option Nat)

/-- A log file that is open for writing.  A `write` may fail, or write any part of what it is given
behind what is there. -/
def logEnv (logFd : Fd) : Env SysOp SysOp.Result WrittenFile where
  allows _ op := ∃ buf, op = .write logFd buf
  act f op r f' :=
    match op, r with
    | .write fd _, none => fd = logFd ∧ f' = ⟨f.bytes, f.results ++ [none]⟩
    | .write fd buf, some n =>
      fd = logFd ∧ f' = ⟨f.bytes ++ buf.take n, f.results ++ [some n.val]⟩
    | _, _ => False

theorem logEnv_failed (logFd : Fd) (f : WrittenFile) (buf : Bytes) :
    (logEnv logFd).act f (.write logFd buf) none ⟨f.bytes, f.results ++ [none]⟩ := ⟨rfl, rfl⟩

theorem logEnv_wrote (logFd : Fd) (f : WrittenFile) {buf : Bytes} {n : Nat}
    (h : n < buf.length + 1) :
    (logEnv logFd).act f (.write logFd buf) (some ⟨n, h⟩)
      ⟨f.bytes ++ buf.take n, f.results ++ [some n]⟩ := ⟨rfl, rfl⟩

/-- What the `write`s of one call of `log` come to. -/
inductive LogOutcome
  | headerFailed
  | bodyFailed (header : Fin (headerSize + 1))
  | wrote (header : Fin (headerSize + 1)) (body : Fin (24 + 1))

namespace LogOutcome

def results : LogOutcome → List (Option Nat)
  | headerFailed => [none]
  | bodyFailed header => [some header, none]
  | wrote header body => [some header, some body]

/-- No `write` has failed. -/
def Unfailed (o : LogOutcome) : Prop := none ∉ o.results

/-- Each `write` has written all that it was given. -/
def Complete (o : LogOutcome) : Prop := o = .wrote (.last headerSize) (.last 24)

/-- The number of bytes that have been written. -/
def size (o : LogOutcome) : Nat := (o.results.map (·.getD 0)).sum

/-- What the call returns. -/
def returned : LogOutcome → Option Unit
  | headerFailed | bodyFailed _ => none
  | wrote _ _ => some ()

/-- What the call writes of a message. -/
def bytes (message : RPCMessage) : LogOutcome → Bytes
  | headerFailed => []
  | bodyFailed header => message.header.toBytes.take header
  | wrote header body => message.header.toBytes.take header ++ (logBody message).1.take body

theorem unfailed_iff (o : LogOutcome) : o.Unfailed ↔ o.returned = some () := by
  cases o <;> simp [Unfailed, results, returned]

theorem bytes_length (o : LogOutcome) (message : RPCMessage) :
    (o.bytes message).length = o.size := by
  cases o with
  | headerFailed => rfl
  | bodyFailed header =>
    have hheader := header.is_lt
    simp [bytes, size, results]
    omega
  | wrote header body =>
    have hheader := header.is_lt
    have hbody := body.is_lt
    simp [bytes, size, results, (logBody message).2]
    omega

end LogOutcome

section

variable {logFd : Fd} {message : RPCMessage} {file : Bytes}

/-- The `write`s of a call of `log` come to something. -/
theorem exists_logOutcome {returned : Option Unit} {f : WrittenFile}
    (h : Exec (logEnv logFd) (log logFd message) ⟨file, []⟩ returned f) :
    ∃ o : LogOutcome, returned = o.returned ∧ f = ⟨file ++ o.bytes message, o.results⟩ := by
  have hheaderLength := message.header.toBytes_length
  have hbodyLength := (logBody message).2
  obtain ⟨header, f₁, hheader, hrest⟩ := Exec.of_bind h
  cases hheader with
  | call hact hret =>
    cases hret
    cases header with
    | none =>
      obtain ⟨-, rfl⟩ := hact
      cases hrest
      exact ⟨.headerFailed, rfl, by simp [LogOutcome.bytes, LogOutcome.results]⟩
    | some header =>
      obtain ⟨-, rfl⟩ := hact
      obtain ⟨body, f₂, hbody, hrest⟩ := Exec.of_bind hrest
      cases hbody with
      | call hact hret =>
        cases hret
        cases body with
        | none =>
          obtain ⟨-, rfl⟩ := hact
          cases hrest
          exact ⟨.bodyFailed (header.cast (by rw [hheaderLength])), rfl, rfl⟩
        | some body =>
          obtain ⟨-, rfl⟩ := hact
          cases hrest
          exact ⟨.wrote (header.cast (by rw [hheaderLength])) (body.cast (by rw [hbodyLength])),
            rfl, by simp [LogOutcome.bytes, LogOutcome.results]⟩

/-- The `write`s of a call of `log` may come to anything. -/
theorem exec_logOutcome (o : LogOutcome) :
    Exec (logEnv logFd) (log logFd message) ⟨file, []⟩ o.returned
      ⟨file ++ o.bytes message, o.results⟩ := by
  have hheaderLength := message.header.toBytes_length
  have hbodyLength := (logBody message).2
  cases o with
  | headerFailed =>
    rw [LogOutcome.bytes, List.append_nil]
    exact .call (logEnv_failed logFd _ _) (.ret _ _)
  | bodyFailed header =>
    have hheader : header.val < message.header.toBytes.length + 1 := by
      rw [hheaderLength]
      exact header.is_lt
    refine .call (logEnv_wrote logFd _ hheader) ?_
    exact .call (logEnv_failed logFd _ _) (.ret _ _)
  | wrote header body =>
    have hheader : header.val < message.header.toBytes.length + 1 := by
      rw [hheaderLength]
      exact header.is_lt
    have hbody : body.val < (logBody message).1.length + 1 := by
      rw [hbodyLength]
      exact body.is_lt
    rw [LogOutcome.bytes, ← List.append_assoc]
    refine .call (logEnv_wrote logFd _ hheader) ?_
    exact .call (logEnv_wrote logFd _ hbody) (.ret _ _)

/-- What a call of `log` writes and returns is what its `write`s come to. -/
theorem exec_log_iff {returned : Option Unit} {f : WrittenFile} :
    Exec (logEnv logFd) (log logFd message) ⟨file, []⟩ returned f ↔
      ∃ o : LogOutcome, returned = o.returned ∧ f = ⟨file ++ o.bytes message, o.results⟩ := by
  constructor
  · exact exists_logOutcome
  · rintro ⟨o, rfl, rfl⟩
    exact exec_logOutcome o

end

/-- A call of `log`, with what its `write`s have come to and what it has returned. -/
structure LogCall where
  message : RPCMessage
  outcome : LogOutcome
  returned : Option Unit

/-- Calls of `log` on one descriptor, in their order, and the file that they have written. -/
inductive Logs (logFd : Fd) : List LogCall → Bytes → Prop
  | nil : Logs logFd [] []
  | call {calls : List LogCall} {file file' : Bytes} {message : RPCMessage} {outcome : LogOutcome}
      {returned : Option Unit} : Logs logFd calls file →
      Exec (logEnv logFd) (log logFd message) ⟨file, []⟩ returned ⟨file', outcome.results⟩ →
      Logs logFd (calls ++ [⟨message, outcome, returned⟩]) file'

theorem LogOutcome.results_inj {o o' : LogOutcome} (h : o.results = o'.results) : o = o' := by
  cases o <;> cases o' <;> simp_all [results, Fin.ext_iff]

/-- The file holds what the calls have written, one after the other. -/
theorem logs_iff {logFd : Fd} {calls : List LogCall} {file : Bytes} :
    Logs logFd calls file ↔
      file = calls.flatMap (fun call => call.outcome.bytes call.message) ∧
      ∀ call ∈ calls, call.returned = call.outcome.returned := by
  constructor
  · intro h
    induction h with
    | nil => exact ⟨rfl, nofun⟩
    | call _ hexec ih =>
      obtain ⟨o, hreturned, hfile⟩ := exec_log_iff.mp hexec
      cases LogOutcome.results_inj (congrArg WrittenFile.results hfile)
      refine ⟨?_, fun call hcall => ?_⟩
      · rw [List.flatMap_append, ← ih.1]
        simpa using congrArg WrittenFile.bytes hfile
      · rcases List.mem_append.mp hcall with hcall | hcall
        · exact ih.2 call hcall
        · cases List.mem_singleton.mp hcall
          exact hreturned
  · rintro ⟨rfl, hreturned⟩
    induction calls using List.reverseRecOn with
    | nil => exact .nil
    | append_singleton calls call ih =>
      have hcalls := ih fun c hc => hreturned c (List.mem_append_left _ hc)
      rw [List.flatMap_append, List.flatMap_singleton]
      refine hcalls.call (exec_log_iff.mpr ⟨call.outcome, ?_, rfl⟩)
      exact hreturned call (List.mem_append_right _ (List.mem_singleton_self call))

end Calls

section Recovery

/-- The body of a message is `NULL`, or points at as many bytes as its mark tells. -/
def RPCMessage.WellFormed (message : RPCMessage) : Prop :=
  ∀ body, message.body = some body → body.length = message.mark.dataLen.toNat

/-- The record of a message: its header and the first 24 bytes of its body, with zeros behind a
shorter one, or none at all. -/
def RPCMessage.record (message : RPCMessage) : LogMessage :=
  ⟨message.header, .fit 24 (message.body.getD [])⟩

theorem RPCMessage.WellFormed.logBody_eq {message : RPCMessage} (h : message.WellFormed) :
    logBody message = message.record.body := by
  cases hbody : message.body with
  | none => simp [logBody, record, hbody]
  | some body =>
    have hlength := h body hbody
    simp only [logBody, record, hbody, Option.getD_some, ← hlength, ← List.take_eq_take_min]
    exact Octets.fit_take 24 body

theorem LogOutcome.Complete.bytes_eq {o : LogOutcome} (ho : o.Complete) {message : RPCMessage}
    (h : message.WellFormed) : o.bytes message = message.record.toBytes := by
  rw [ho, bytes, h.logBody_eq, RPCMessage.record, LogMessage.toBytes, Fin.val_last, Fin.val_last,
    List.take_of_length_le (Nat.le_of_eq message.header.toBytes_length),
    List.take_of_length_le (Nat.le_of_eq (Octets.fit 24 _).2)]

/-- The program ends when it reads `file`, and it ends at `pc` only. -/
def DumpsOnly (fd : Fd) (file : Bytes) (pc : DumpPc) : Prop := ∀ pc', Dumps fd file pc' ↔ pc' = pc

/-- The calls of `log` whose `write`s are all complete write one record each, and the program reads
these records back, all of them and in their order, and no part of another one. -/
theorem logged_records_recovered {logFd fd : Fd} {calls : List LogCall} {file : Bytes}
    (h : Logs logFd calls file) (hmessages : ∀ call ∈ calls, call.message.WellFormed)
    (hcomplete : ∀ call ∈ calls, call.outcome.Complete) :
    file = calls.flatMap (fun call => call.message.record.toBytes) ∧
    ∃ printed, printed.messages = calls.map (fun call => call.message.record) ∧
      DumpsOnly fd file (.returned printed) := by
  have hfile : file = calls.flatMap (fun call => call.message.record.toBytes) := by
    rw [(logs_iff.mp h).1]
    apply List.flatMap_congr
    intro call hcall
    exact (hcomplete call hcall).bytes_eq (hmessages call hcall)
  refine ⟨hfile, Printed.puts (Printed.messagesFrom ⟨['['], []⟩ true (records file)) "]\n".toList,
    ?_, fun pc => ?_⟩
  · have hrecords := records_flatMap (calls.map fun call => call.message.record)
    rw [List.flatMap_map, ← hfile] at hrecords
    rw [Printed.puts, Printed.messagesFrom_messages, hrecords]
    rfl
  · have hlength := length_flatMap_toBytes (calls.map fun call => call.message.record)
    rw [List.flatMap_map, ← hfile] at hlength
    rw [dumps_iff, dumpEnd, hlength, Nat.mul_mod_right, if_pos rfl]

/-- A message with a body of 30 bytes and one without a body. -/
theorem logged_records_recovered_two :
    let long : RPCMessage :=
      ⟨⟨0, 72, 30, 0⟩, .ofBytes (List.replicate 72 1), some (List.replicate 30 2)⟩
    let empty : RPCMessage := ⟨⟨0, 72, 0, 0⟩, .ofBytes (List.replicate 72 3), none⟩
    ∃ printed, printed.messages = [long.record, empty.record] ∧
      DumpsOnly 3 (long.record.toBytes ++ empty.record.toBytes) (.returned printed) := by
  intro long empty
  let call (message : RPCMessage) : LogCall :=
    ⟨message, .wrote (.last headerSize) (.last 24), some ()⟩
  have hlong : long.WellFormed := by
    rintro body ⟨rfl⟩
    rfl
  have hempty : empty.WellFormed := nofun
  have h : Logs 4 [call long, call empty] _ :=
    logs_iff.mpr ⟨rfl, by simp [call, LogOutcome.returned]⟩
  obtain ⟨hfile, printed, hmessages, hdumps⟩ := @logged_records_recovered 4 3 _ _ h
    (by simp [call, hlong, hempty]) (by simp [call, LogOutcome.Complete])
  rw [hfile] at hdumps
  simp only [List.flatMap_cons, List.flatMap_nil, List.append_nil] at hdumps
  exact ⟨printed, hmessages, hdumps⟩

end Recovery

section Failures

/-- Each message whose call of `log` has returned 0 is read back, as a record of its own. -/
def Recovers (fd : Fd) (calls : List LogCall) (file : Bytes) : Prop :=
  ∃ pc, DumpsOnly fd file pc ∧
    ((calls.filter (·.returned = some ())).map (·.message.record)).Sublist pc.printed.messages

/-- Each call none of whose `write`s has failed has written all of a record, behind as many bytes as
some number of records has. -/
def Aligned (outcomes : List LogOutcome) : Prop :=
  ∀ before o after, outcomes = before ++ o :: after → o.Unfailed →
    o.Complete ∧ logMessageSize ∣ (before.map LogOutcome.size).sum

variable {calls : List LogCall}

theorem length_flatMap_bytes (calls : List LogCall) :
    (calls.flatMap fun call => call.outcome.bytes call.message).length =
      ((calls.map LogCall.outcome).map LogOutcome.size).sum := by
  induction calls with
  | nil => rfl
  | cons call calls ih =>
    rw [List.flatMap_cons, List.length_append, LogOutcome.bytes_length, ih, List.map_cons,
      List.map_cons, List.sum_cons]

theorem recovers_iff_sublist {fd : Fd} {file : Bytes} :
    Recovers fd calls file ↔
      ((calls.filter (·.returned = some ())).map (·.message.record)).Sublist (records file) := by
  have hmessages := dumpEnd_messages true ⟨['['], []⟩ file
  rw [List.nil_append] at hmessages
  rw [← hmessages]
  constructor
  · rintro ⟨pc, honly, hsublist⟩
    obtain rfl := (dumps_iff fd file pc).mp ((honly pc).mpr rfl)
    exact hsublist
  · exact fun h => ⟨_, dumps_iff fd file, h⟩

theorem Aligned.sublist (haligned : Aligned (calls.map LogCall.outcome))
    (hmessages : ∀ call ∈ calls, call.message.WellFormed)
    (hreturned : ∀ call ∈ calls, call.returned = call.outcome.returned) :
    ((calls.filter (·.returned = some ())).map (·.message.record)).Sublist
      (records (calls.flatMap fun call => call.outcome.bytes call.message)) := by
  induction calls using List.reverseRecOn with
  | nil => exact List.nil_sublist _
  | append_singleton calls call ih =>
    have hlast : call ∈ calls ++ [call] := List.mem_append_right _ (List.mem_singleton_self call)
    have hcalls := ih (fun before o after hsplit => haligned before o (after ++ [call.outcome])
      (by rw [List.map_append, hsplit, List.append_assoc]; rfl))
      (fun c hc => hmessages c (List.mem_append_left _ hc))
      (fun c hc => hreturned c (List.mem_append_left _ hc))
    rw [List.filter_append, List.map_append, List.flatMap_append, List.flatMap_singleton]
    by_cases hok : call.returned = some ()
    · have hunfailed := call.outcome.unfailed_iff.mpr ((hreturned call hlast).symm.trans hok)
      obtain ⟨hcomplete, hdvd⟩ := haligned (calls.map LogCall.outcome) call.outcome []
        (by rw [List.map_append]; rfl) hunfailed
      rw [← length_flatMap_bytes] at hdvd
      rw [hcomplete.bytes_eq (hmessages call hlast), records_append _ hdvd, records_toBytes,
        List.filter_cons_of_pos (by simpa using hok), List.filter_nil]
      exact hcalls.append (List.Sublist.refl _)
    · rw [List.filter_cons_of_neg (by simpa using hok), List.filter_nil, List.map_nil,
        List.append_nil]
      exact hcalls.trans (records_prefix_append _ _).sublist

/-- A message all of whose logged bytes are `b`. -/
def uniformMessage (b : UInt8) : RPCMessage where
  mark := ⟨MARK_SIGNATURE, 72, 24, 0⟩
  header := .ofBytes (List.replicate headerSize b)
  body := some (List.replicate 24 b)

theorem uniformMessage_wellFormed (b : UInt8) : (uniformMessage b).WellFormed := by
  rintro body ⟨rfl⟩
  exact List.length_replicate

theorem uniformMessage_record (b : UInt8) :
    (uniformMessage b).record.toBytes = List.replicate logMessageSize b := by
  have hheader : (List.replicate headerSize b).length = headerSize := List.length_replicate
  have hbody : (List.replicate 24 b).length = 24 := List.length_replicate
  rw [RPCMessage.record, LogMessage.toBytes, uniformMessage, RPCHeader.toBytes_ofBytes hheader,
    Option.getD_some, Octets.fit_eq hbody, List.replicate_append_replicate]
  rfl

theorem bytes_uniformMessage (o : LogOutcome) (b : UInt8) :
    o.bytes (uniformMessage b) = List.replicate o.size b := by
  have hheader : (uniformMessage b).header.toBytes = List.replicate headerSize b :=
    RPCHeader.toBytes_ofBytes List.length_replicate
  have hbody : (logBody (uniformMessage b)).1 = List.replicate 24 b := by
    rw [(uniformMessage_wellFormed b).logBody_eq]
    exact congrArg Subtype.val (Octets.fit_eq List.length_replicate)
  cases o with
  | headerFailed => rfl
  | bodyFailed header =>
    have hle : header.val ≤ headerSize := by omega
    simp [LogOutcome.bytes, LogOutcome.size, LogOutcome.results, hheader, Nat.min_eq_left hle]
  | wrote header body =>
    have hle : header.val ≤ headerSize := by omega
    have hle' : body.val ≤ 24 := by omega
    rw [LogOutcome.bytes, hheader, hbody, List.take_replicate, List.take_replicate,
      Nat.min_eq_left hle, Nat.min_eq_left hle', List.replicate_append_replicate]
    simp [LogOutcome.size, LogOutcome.results]

/-- A run of at most 96 other bytes that fills a record is as long as a record and starts where one
does. -/
theorem run_of_record {p q r i : Nat} {a b : UInt8} (hab : a ≠ b) (hq : q ≤ logMessageSize)
    (h : ((List.replicate p a ++ (List.replicate q b ++ List.replicate r a)).drop
      (logMessageSize * i)).take logMessageSize = List.replicate logMessageSize b) :
    q = logMessageSize ∧ p = logMessageSize * i := by
  have hinside (j : Nat) (hj : j < logMessageSize) :
      p ≤ logMessageSize * i + j ∧ logMessageSize * i + j < p + q := by
    have hget := congrArg (·[j]?) h
    simp only [List.getElem?_take_of_lt hj, List.getElem?_drop, List.getElem?_append,
      List.length_replicate, List.getElem?_replicate, hj, if_true] at hget
    split_ifs at hget
    · exact absurd (Option.some.inj hget) hab
    · omega
    · exact absurd (Option.some.inj hget) hab
  have hfirst := hinside 0 (by decide)
  have hlast := hinside (logMessageSize - 1) (by decide)
  simp only [logMessageSize] at *
  omega

theorem LogOutcome.size_wrote (header : Fin (headerSize + 1)) (body : Fin (24 + 1)) :
    (LogOutcome.wrote header body).size = header + body := by
  simp [size, results]

theorem LogOutcome.size_le (o : LogOutcome) : o.size ≤ logMessageSize := by
  have hrecord : logMessageSize = headerSize + 24 := rfl
  cases o with
  | headerFailed => exact Nat.zero_le _
  | bodyFailed header =>
    have hsize : (bodyFailed header).size = header := by simp [size, results]
    omega
  | wrote header body =>
    rw [size_wrote]
    omega

theorem LogOutcome.complete_of_size {o : LogOutcome} (h : o.size = logMessageSize)
    (hunfailed : o.Unfailed) : o.Complete := by
  have hrecord : logMessageSize = headerSize + 24 := rfl
  cases o with
  | headerFailed => exact absurd hunfailed (by simp [Unfailed, results])
  | bodyFailed header => exact absurd hunfailed (by simp [Unfailed, results])
  | wrote header body =>
    rw [size_wrote] at h
    rw [Complete, LogOutcome.wrote.injEq, Fin.ext_iff, Fin.ext_iff, Fin.val_last, Fin.val_last]
    omega

theorem flatMap_uniform (outcomes : List LogOutcome) (b : UInt8) :
    (outcomes.flatMap fun o => o.bytes (uniformMessage b)) =
      List.replicate (outcomes.map LogOutcome.size).sum b := by
  induction outcomes with
  | nil => rfl
  | cons o outcomes ih =>
    rw [List.flatMap_cons, bytes_uniformMessage, ih, List.replicate_append_replicate,
      List.map_cons, List.sum_cons]

/-- A short `write`, or bytes that a failed call has left before it, makes the record of some
message unreadable although its call has returned 0. -/
theorem aligned_of_recovers {logFd fd : Fd} {outcomes : List LogOutcome}
    (h : ∀ calls file, Logs logFd calls file → (∀ call ∈ calls, call.message.WellFormed) →
      calls.map LogCall.outcome = outcomes → Recovers fd calls file) : Aligned outcomes := by
  rintro before o after rfl hunfailed
  -- All bytes of the message in question are 255, and all bytes of the others are 0.
  let other (outcome : LogOutcome) : LogCall := ⟨uniformMessage 0, outcome, outcome.returned⟩
  let call : LogCall := ⟨uniformMessage 255, o, o.returned⟩
  let calls := before.map other ++ call :: after.map other
  have hfile : calls.flatMap (fun call => call.outcome.bytes call.message) =
      List.replicate (before.map LogOutcome.size).sum 0 ++
        (List.replicate o.size 255 ++ List.replicate (after.map LogOutcome.size).sum 0) := by
    rw [List.flatMap_append, List.flatMap_cons, List.flatMap_map, List.flatMap_map]
    exact congr (congrArg _ (flatMap_uniform before 0)) (congr (congrArg _
      (bytes_uniformMessage o 255)) (flatMap_uniform after 0))
  have hcalls (c : LogCall) (hc : c ∈ calls) : c = call ∨ ∃ outcome, c = other outcome := by
    rcases List.mem_append.mp hc with hc | hc
    · obtain ⟨outcome, -, rfl⟩ := List.mem_map.mp hc
      exact .inr ⟨outcome, rfl⟩
    · rcases List.mem_cons.mp hc with rfl | hc
      · exact .inl rfl
      · obtain ⟨outcome, -, rfl⟩ := List.mem_map.mp hc
        exact .inr ⟨outcome, rfl⟩
  have hreturned (c : LogCall) (hc : c ∈ calls) : c.returned = c.outcome.returned := by
    rcases hcalls c hc with rfl | ⟨outcome, rfl⟩ <;> rfl
  have hmessages (c : LogCall) (hc : c ∈ calls) : c.message.WellFormed := by
    rcases hcalls c hc with rfl | ⟨outcome, rfl⟩ <;> exact uniformMessage_wellFormed _
  have houtcomes : calls.map LogCall.outcome = before ++ o :: after := by
    simp [calls, other, call, Function.comp_def]
  have hrecovers := h calls _ (logs_iff.mpr ⟨rfl, hreturned⟩) hmessages houtcomes
  rw [recovers_iff_sublist, hfile] at hrecovers
  have hcall : call ∈ calls.filter (·.returned = some ()) :=
    List.mem_filter.mpr ⟨List.mem_append_right _ List.mem_cons_self,
      decide_eq_true (o.unfailed_iff.mp hunfailed)⟩
  obtain ⟨i, hi⟩ := exists_of_mem_records (hrecovers.subset (List.mem_map_of_mem hcall))
  rw [uniformMessage_record] at hi
  obtain ⟨hsize, hbefore⟩ := run_of_record (by decide) o.size_le hi
  exact ⟨LogOutcome.complete_of_size hsize hunfailed, ⟨i, hbefore⟩⟩

/-- Whatever the messages, each one whose call of `log` has returned 0 is read back, if and only if
no call whose `write`s have not failed has been short, or has found part of a record before it. -/
theorem recovers_iff_aligned (logFd fd : Fd) (outcomes : List LogOutcome) :
    (∀ calls file, Logs logFd calls file → (∀ call ∈ calls, call.message.WellFormed) →
      calls.map LogCall.outcome = outcomes → Recovers fd calls file) ↔ Aligned outcomes := by
  constructor
  · exact aligned_of_recovers
  · rintro haligned calls file hlogs hmessages rfl
    obtain ⟨rfl, hreturned⟩ := logs_iff.mp hlogs
    exact recovers_iff_sublist.mpr (haligned.sublist hmessages hreturned)

/-- A message of which only the header is logged, and a message that is logged behind it. -/
theorem not_recovered_after_failure : ∃ calls file, Logs 4 calls file ∧
    (∀ call ∈ calls, call.message.WellFormed) ∧
    calls.map LogCall.outcome =
      [.bodyFailed (.last headerSize), .wrote (.last headerSize) (.last 24)] ∧
    ¬Recovers 3 calls file := by
  let first : LogCall := ⟨uniformMessage 0, .bodyFailed (.last headerSize), none⟩
  let second : LogCall := ⟨uniformMessage 255, .wrote (.last headerSize) (.last 24), some ()⟩
  have hfile : [first, second].flatMap (fun call => call.outcome.bytes call.message) =
      List.replicate 72 0 ++ (List.replicate 96 255 ++ List.replicate 0 0) := by
    simp only [List.flatMap_cons, List.flatMap_nil]
    rw [bytes_uniformMessage, bytes_uniformMessage]
    rfl
  refine ⟨[first, second], _, logs_iff.mpr ⟨rfl, ?_⟩, ?_, rfl, fun hrecovers => ?_⟩
  · intro call hcall
    rcases List.mem_pair.mp hcall with rfl | rfl <;> rfl
  · intro call hcall
    rcases List.mem_pair.mp hcall with rfl | rfl <;> exact uniformMessage_wellFormed _
  · rw [recovers_iff_sublist, hfile] at hrecovers
    have hcall : second ∈ [first, second].filter (·.returned = some ()) := by simp [first, second]
    obtain ⟨i, hi⟩ := exists_of_mem_records (hrecovers.subset (List.mem_map_of_mem hcall))
    rw [uniformMessage_record] at hi
    obtain ⟨-, hbefore⟩ := run_of_record (by decide) (Nat.le_refl _) hi
    rw [logMessageSize] at hbefore
    omega

end Failures

end SoftwareDynamics.Network

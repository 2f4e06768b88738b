import SoftwareDynamics.Network.Transcript
import SoftwareDynamics.Network.DumpNumbers

/-! What `dumplogfile` prints of the log files of client and server.  A reader of its JSON finds the
same objects in both, in every run. -/

namespace SoftwareDynamics.Network

open ProofKit Prog

section Told

/-- The members that client and server do not tell the same of: when a message was received, and
the body. -/
def ownNames : List (List Char) := ["t2_us".toList, "t4_us".toList, "body".toList]

/-- What is read from a dump, without these members. -/
def DumpPc.told (pc : DumpPc) : List Json :=
  (Json.elements pc.printed.stdout).map (Json.without ownNames)

/-- The object of a record without these members. -/
def recordTold (m : LogMessage) : Json := (recordJson m).without ownNames

/-- It does not depend on the times at which the message was received, and not on the body. -/
theorem recordTold_clear (m : LogMessage) :
    recordTold m = recordTold ⟨m.header.clearRecvTimes, .fit 24 []⟩ := by
  simp [recordTold, recordJson, Json.without, ownNames, RPCHeader.clearRecvTimes,
    RPCHeader.clearReqRecvTime, RPCHeader.clearResRecvTime]

theorem recordsTold_eq {ms ms' : List LogMessage}
    (h : ms.map (·.header.clearRecvTimes) = ms'.map (·.header.clearRecvTimes)) :
    ms.map recordTold = ms'.map recordTold := by
  have htold (ms : List LogMessage) : ms.map recordTold =
      (ms.map (·.header.clearRecvTimes)).map fun header => recordTold ⟨header, .fit 24 []⟩ := by
    rw [List.map_map]
    exact List.map_congr_left fun m _ => recordTold_clear m
  rw [htold, h, ← htold]

/-- What is read from a dump of a log file that may still lack a part of its last record. -/
theorem Dumps.told {fd : Fd} {file missing : Bytes} {pc : DumpPc} (hdumps : Dumps fd file pc)
    {ms : List LogMessage} (hfile : file ++ missing = logFile ms)
    (hshort : missing.length ≤ logMessageSize) :
    pc.told <+: ms.map recordTold ∧ ms.length ≤ pc.told.length + 1 ∧
      (missing = [] → pc.told = ms.map recordTold) := by
  have htold : pc.told = (records file).map recordTold := by
    rw [DumpPc.told, elements_dump hdumps, List.map_map]
    rfl
  have hrecords : records (file ++ missing) = ms := by rw [hfile, logFile, records_flatMap]
  rw [htold]
  refine ⟨?_, ?_, ?_⟩
  · rw [← hrecords]
    exact (records_prefix_append file missing).map _
  · have hlen := congrArg List.length hfile
    rw [List.length_append, logFile, length_flatMap_toBytes] at hlen
    simp only [List.length_map, records, List.length_range]
    simp only [logMessageSize] at hlen hshort ⊢
    omega
  · rintro rfl
    rw [← hrecords, List.append_nil]

end Told

section Results

/-- For every run of a client against the server, while other clients may be served on other ports,
the dumps of both log files show the same messages in the same order, but for `t2_us`, `t4_us` and
the bodies.  A dump may lack the last message, if the client has still to log it, or the server is
not at the head of a loop. -/
theorem dumps_agree {T : Type} [DecidableEq T] (stored : Bool) (args : Args) (ports : T → Int32)
    (keystore : Keystore) (hfits : ∀ j, args.Fits j)
    {c : Config (Party T) (fun p => Sys p.Pc) (Net × (Party T → Disk))}
    (hrun : (diskNet stored args ports).Runs (fun _ _ => True) (diskInit T keystore) c)
    {pc : ClientPc} (hclient : c.own .client = .ret pc) (hgo : pc.failed = false)
    {atClient atServer : Bytes} (hatClient : (c.shared.2 .client).file clientLogFn = some atClient)
    (hatServer : (c.shared.2 .server).file (serverLogFn (.ofNat args.port.toNat)) =
      some atServer) {fd fd' : Fd} {ofClient ofServer : DumpPc}
    (hofClient : Dumps fd atClient ofClient) (hofServer : Dumps fd' atServer ofServer) :
    ∃ told, ofClient.told <+: told ∧ ofServer.told <+: told ∧
      told.length ≤ ofClient.told.length + 1 ∧ told.length ≤ ofServer.told.length + 1 ∧
      (pc.unlogged = [] → ofClient.told = told) ∧
      ∀ pc', c.own .server = .ret pc' → ofServer.told = told := by
  obtain ⟨zs, missing, hzs, hmissing, hshort, hwhole, -⟩ :=
    logs_tell hfits hrun hclient hgo hatClient hatServer
  have hunlogged : pc.unlogged.length ≤ logMessageSize := by
    unfold ClientPc.unlogged
    split
    · exact Nat.le_of_eq (LogMessage.toBytes_length _)
    · exact Nat.zero_le _
  obtain ⟨hclientPre, hclientLen, hclientAll⟩ := hofClient.told hzs hunlogged
  obtain ⟨hserverPre, hserverLen, hserverAll⟩ := hofServer.told hmissing hshort
  have hsame := recordsTold_eq (sameHeaders zs)
  refine ⟨_, hclientPre, hsame ▸ hserverPre, by simpa using hclientLen, ?_, hclientAll,
    fun pc' hpc' => ?_⟩
  · rw [hsame, List.length_map]
    exact hserverLen
  · rw [hsame]
    exact hserverAll (hwhole pc' hpc')

/-- Two `ping`s without a value. -/
theorem dumps_agree_ping : ∃ (c : Config (Party Unit) (fun p => Sys p.Pc)
      (Net × (Party Unit → Disk))) (atClient atServer : Bytes) (ofClient ofServer : DumpPc),
    (diskNet true (twoRequests .Ping none none) fun _ => 12346).Runs (fun _ _ => True)
      (diskInit Unit ∅) c ∧
    (c.shared.2 .client).file clientLogFn = some atClient ∧ Dumps 3 atClient ofClient ∧
    (c.shared.2 .server).file (serverLogFn 12345) = some atServer ∧ Dumps 3 atServer ofServer ∧
    ofClient.told = ofServer.told := by
  obtain ⟨c, _, _, _, atClient, atServer, hrun, hclient, hserver, hatClient, hatServer⟩ :=
    runs_logged_pings
  have hofClient := (dumps_iff 3 atClient _).mpr rfl
  have hofServer := (dumps_iff 3 atServer _).mpr rfl
  obtain ⟨told, -, -, -, -, hwhole, hwhole'⟩ :=
    dumps_agree true (twoRequests .Ping none none) (fun _ => 12346) ∅ twoPings_fit hrun hclient rfl
      hatClient hatServer hofClient hofServer
  exact ⟨c, atClient, atServer, _, _, hrun, hatClient, hofClient, hatServer, hofServer,
    (hwhole rfl).trans (hwhole' _ hserver).symm⟩

end Results

end SoftwareDynamics.Network

import SoftwareDynamics.Network.DumpJson
import SoftwareDynamics.ProofKit.JsonReader

/-! The numbers that are read from what `dumplogfile` prints, beside those that are in the log. -/

namespace SoftwareDynamics.Network

open ProofKit Prog Json

section Model

/-- The names of the numbers of an object, and what they are in a header. -/
def numberFields : List (String × (RPCHeader → Nat)) := [
  ("rpc_id", fun header => header.rpcId.toNat),
  ("parent", fun header => header.parent.toNat),
  ("t1_us", fun header => header.reqSendTimeUs.toNat),
  ("t2_us", fun header => header.reqRecvTimeUs.toNat),
  ("t3_us", fun header => header.resSendTimeUs.toNat),
  ("t4_us", fun header => header.resRecvTimeUs.toNat),
  ("req_len_log", fun header => header.reqLenLog.toNat),
  ("res_len_log", fun header => header.resLenLog.toNat)]

/-- The numbers of the object are those of the header. -/
def Shows (object : Json) (header : RPCHeader) : Prop :=
  ∀ field ∈ numberFields,
    (object.member? field.1.toList).bind Json.int? = some (field.2 header : Int)

/-- In whatever log file the record is, the object that is printed for it has its numbers. -/
def ShowsNumbers (m : LogMessage) : Prop :=
  ∀ fd file pc, Dumps fd file pc → ∀ i : Nat, (records file)[i]? = some m →
    ∃ object, (Json.elements pc.printed.stdout)[i]? = some object ∧ Shows object m.header

end Model

section Numbers

theorem int?_percentU (n : Nat) : Json.int? (.num (percentU n)) = some (n : Int) :=
  int?_toDigits n

/-- What is printed as a signed number is read as one. -/
theorem int?_percentD (x : UInt32) : Json.int? (.num (percentD x)) = some x.toInt32.toInt := by
  unfold percentD
  split
  · next n heq => rw [heq, int?_percentU]; rfl
  · next n heq =>
    rw [heq]
    exact int?_neg_toDigits (n + 1)

theorem toInt32_eq_iff (x : UInt32) : x.toInt32.toInt = x.toNat ↔ x.toNat < 2 ^ 31 := by
  have hint : x.toInt32.toInt =
      if 2 * x.toNat < 2 ^ 32 then (x.toNat : Int) else (x.toNat : Int) - (2 ^ 32 : Nat) :=
    BitVec.toInt_eq_toNat_cond x.toBitVec
  rw [hint]
  split <;> omega

/-- The ids are printed as signed numbers, and all other numbers as they are. -/
theorem shows_recordJson (m : LogMessage) :
    Shows (recordJson m) m.header ↔
      m.header.rpcId.toNat < 2 ^ 31 ∧ m.header.parent.toNat < 2 ^ 31 := by
  have hu (n : Nat) : Json.int? (.num (percentU n)) = some (n : Int) ↔ True :=
    iff_true_intro (int?_percentU n)
  have hd (x : UInt32) :
      Json.int? (.num (percentD x)) = some (x.toNat : Int) ↔ x.toNat < 2 ^ 31 := by
    rw [int?_percentD, Option.some_inj, toInt32_eq_iff]
  simp only [Shows, numberFields, List.forall_mem_cons, List.not_mem_nil, false_implies,
    implies_true]
  change Json.int? (.num (percentD _)) = _ ∧ Json.int? (.num (percentD _)) = _ ∧
    Json.int? (.num (percentU _)) = _ ∧ Json.int? (.num (percentU _)) = _ ∧
    Json.int? (.num (percentU _)) = _ ∧ Json.int? (.num (percentU _)) = _ ∧
    Json.int? (.num (percentU _)) = _ ∧ Json.int? (.num (percentU _)) = _ ∧ True ↔ _
  simp only [hu, hd, and_true]

end Numbers

section Dump

/-- The objects of all complete records are found, also where bytes behind them end the dump. -/
theorem elements_dump {fd : Fd} {file : Bytes} {pc : DumpPc} (h : Dumps fd file pc) :
    Json.elements pc.printed.stdout = (records file).map recordJson := by
  obtain rfl := (dumps_iff fd file pc).mp h
  obtain ⟨tail, hstops, hcomma, hnone, hstdout⟩ : ∃ tail, Stops tail ∧
      (∀ cs, skipSpace tail ≠ ',' :: cs) ∧ Json.elements ('[' :: tail) = [] ∧
      (dumpEnd true ⟨['['], []⟩ file).printed.stdout =
        ((⟨['['], []⟩ : Printed).messagesFrom true (records file)).stdout ++ tail := by
    rw [dumpEnd]
    split_ifs
    · refine ⟨"]\n".toList, rfl, fun cs h => ?_, rfl, rfl⟩
      cases h
    · refine ⟨[], rfl, fun cs h => ?_, rfl, (List.append_nil _).symm⟩
      cases h
  rw [hstdout]
  cases records file with
  | nil => exact hnone
  | cons m ms =>
    have helements := Elements.of_forall (show IsSpace ['\n'] by decide) value_recordJson
      (List.forall_mem_nil _) m ms
    rw [Printed.messagesFrom, messagesFrom_stdout]
    exact helements.elements hstops hcomma

theorem ShowsNumbers.lt {m : LogMessage} (h : ShowsNumbers m) :
    m.header.rpcId.toNat < 2 ^ 31 ∧ m.header.parent.toNat < 2 ^ 31 := by
  have hdumps := (dumps_iff 3 m.toBytes _).mpr rfl
  obtain ⟨object, hobject, hshows⟩ := h 3 m.toBytes _ hdumps 0 (by rw [records_toBytes]; rfl)
  rw [elements_dump hdumps, records_toBytes] at hobject
  cases hobject
  exact (shows_recordJson m).mp hshows

/-- The numbers are those of the log just when both ids are in the lower half of their range. -/
theorem showsNumbers_iff (m : LogMessage) :
    ShowsNumbers m ↔ m.header.rpcId.toNat < 2 ^ 31 ∧ m.header.parent.toNat < 2 ^ 31 := by
  refine ⟨ShowsNumbers.lt, fun h fd file pc hdumps i hi => ⟨recordJson m, ?_, ?_⟩⟩
  · rw [elements_dump hdumps, List.getElem?_map, hi]
    rfl
  · exact (shows_recordJson m).mpr h

/-- A record whose id has its highest bit only. -/
def highId : LogMessage := .ofBytes (le32 0x80000000 ++ List.replicate 92 0)

theorem not_showsNumbers_highId : ¬ShowsNumbers highId := by
  intro h
  have hlt : highId.header.rpcId.toNat < 2 ^ 31 := h.lt.1
  exact absurd hlt (by decide)

end Dump

end SoftwareDynamics.Network

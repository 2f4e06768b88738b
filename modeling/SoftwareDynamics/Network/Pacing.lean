import SoftwareDynamics.Network.Scenario

/-! How long the client waits behind a response.  The waiting time, in milliseconds, is turned into
microseconds by a product of 32 bits, which is compared with a difference of 64 bits. -/

namespace SoftwareDynamics.Network

open ProofKit Prog Process

section Clock

/-- A clock whose reading number `n` is `clock n`, and nothing besides it. -/
def clockEnv (clock : Nat → Timeval) : Env SysOp SysOp.Result Nat where
  allows _ op := op = .gettimeofday
  act n op r n' :=
    match op, r with
    | .gettimeofday, some now => now = clock n ∧ n' = n + 1
    | _, _ => False

/-- The loop that waits, which ends where the client comes to any other control point. -/
def waitLoop (stored : Bool) (args : Args) : Process SysOp SysOp.Result ClientPc where
  code := clientCode stored args
  halted
    | .wait .. => false
    | _ => true

/-- The client goes through the loop as the loop goes. -/
theorem waitLoop_reach {σ : Type} {env : Env SysOp SysOp.Result σ}
    {stored : Bool} {args : Args}
    {pc pc' : ClientPc} {s t : σ} (h : (waitLoop stored args).Run env pc s pc' t) :
    (client stored args).Reach env (.ret pc, s) (.ret pc', t) := by
  induction h with
  | halt => exact .refl
  | @round pc _ _ _ _ _ hgo hexec _ ih =>
    have hover : (client stored args).halted pc = false := by
      cases pc with
      | wait => rfl
      | _ => cases hgo
    exact (Reach.of_round hover hexec).trans ih

/-- The waiting time in microseconds, as the client computes it. -/
def waitUs (waitMs : UInt32) : UInt64 := (waitMs * 1000).toUInt64

/-- The loop goes on after reading number `n`. -/
def Waits (args : Args) (response : Frame) (clock : Nat → Timeval) (n : Nat) : Prop :=
  (clock n).usec - response.header.resRecvTimeUs < waitUs args.waitMs

instance (args : Args) (response : Frame) (clock : Nat → Timeval) (n : Nat) :
    Decidable (Waits args response clock n) := inferInstanceAs (Decidable (_ < _))

variable {stored : Bool} {args : Args} {logFd : Fd} {i j : Nat} {nextRpcId : UInt32}
  {connection : Connection} {response : Frame} {clock : Nat → Timeval}

/-- A round of the loop takes one reading. -/
theorem exec_wait_iff {n n' : Nat} {pc : ClientPc} :
    Exec (clockEnv clock) (clientCode stored args (.wait logFd i nextRpcId connection j response)) n
        pc n' ↔
      n' = n + 1 ∧
        pc = if Waits args response clock n then .wait logFd i nextRpcId connection j response
          else .request logFd i nextRpcId connection (j + 1) := by
  have hcode : clientCode stored args (.wait logFd i nextRpcId connection j response) =
      .call .gettimeofday fun
        | none => .ret (.exited 1)
        | some now => .ret (
          if now.usec - response.header.resRecvTimeUs < waitUs args.waitMs then
            .wait logFd i nextRpcId connection j response
          else .request logFd i nextRpcId connection (j + 1)) := by
    rw [clientCode, nowUsec, bind_assoc, perform_bind]
    congr 1
    funext r
    cases r with
    | none => rfl
    | some now =>
      rw [pure_bind]
      exact (apply_ite Prog.ret _ _ _).symm
  rw [hcode]
  constructor
  · intro h
    cases h with
    | @call _ _ r _ _ _ _ hact hrest =>
      rcases r with _ | now
      · exact hact.elim
      · obtain ⟨rfl, rfl⟩ := hact
        cases hrest
        exact ⟨rfl, rfl⟩
  · rintro ⟨rfl, rfl⟩
    have hact : (clockEnv clock).act n .gettimeofday (some (clock n)) (n + 1) := ⟨rfl, rfl⟩
    exact .call hact (.ret _ _)

end Clock

section Pacing

variable {stored : Bool} {args : Args} {logFd : Fd} {i j : Nat} {nextRpcId : UInt32}
  {connection : Connection} {response : Frame} {clock : Nat → Timeval}

theorem first_of_run {pc last : ClientPc} {n n' : Nat}
    (h : (waitLoop stored args).Run (clockEnv clock) pc n last n')
    (hpc : pc = .wait logFd i nextRpcId connection j response) :
    ∃ m, n' = n + m + 1 ∧ (∀ k < m, Waits args response clock (n + k)) ∧
      ¬Waits args response clock (n + m) := by
  induction h with
  | halt hhalt =>
    subst hpc
    cases hhalt
  | round hgo hexec hrest ih =>
    subst hpc
    obtain ⟨rfl, hnext⟩ := (@exec_wait_iff stored _ _ _ _ _ _ _ _ _ _ _).mp hexec
    split at hnext
    · next hwait =>
      obtain ⟨m, hreadings, hbefore, hleave⟩ := ih hnext
      refine ⟨m + 1, by omega, fun k hk => ?_, ?_⟩
      · cases k with
        | zero => exact hwait
        | succ k =>
          have hlater := hbefore k (by omega)
          rwa [Nat.add_right_comm] at hlater
      · rwa [Nat.add_right_comm] at hleave
    · next hleave =>
      subst hnext
      cases hrest with
      | halt => exact ⟨0, rfl, fun k hk => absurd hk (Nat.not_lt_zero k), hleave⟩
      | round hgo => cases hgo

theorem run_of_first {n m : Nat} (hbefore : ∀ k < m, Waits args response clock (n + k))
    (hleave : ¬Waits args response clock (n + m)) :
    (waitLoop stored args).Run (clockEnv clock) (.wait logFd i nextRpcId connection j response) n
      (.request logFd i nextRpcId connection (j + 1)) (n + m + 1) := by
  induction m generalizing n with
  | zero =>
    have hleave : ¬Waits args response clock n := hleave
    refine .round rfl ((@exec_wait_iff stored _ _ _ _ _ _ _ _ _ _ _).mpr ⟨rfl, rfl⟩) ?_
    rw [if_neg hleave]
    exact .halt rfl
  | succ m ih =>
    have hwait : Waits args response clock n := hbefore 0 (Nat.zero_lt_succ m)
    refine .round rfl ((@exec_wait_iff stored _ _ _ _ _ _ _ _ _ _ _).mpr ⟨rfl, rfl⟩) ?_
    rw [if_pos hwait]
    have hrest := @ih (n + 1) (fun k hk => ?_) ?_
    · rwa [show n + 1 + m + 1 = n + (m + 1) + 1 by omega] at hrest
    · have hlater := hbefore (k + 1) (by omega)
      rwa [← Nat.add_assoc, Nat.add_right_comm] at hlater
    · rwa [← Nat.add_assoc, Nat.add_right_comm] at hleave

variable (args response clock) in
/-- Reading number `m` is the first one that is at least `wait_ms` milliseconds after the receive
time. -/
def FirstDue (m : Nat) : Prop :=
  response.header.resRecvTimeUs.toNat + args.waitMs.toNat * 1000 ≤ (clock m).usec.toNat ∧
    ∀ k < m, (clock k).usec.toNat < response.header.resRecvTimeUs.toNat + args.waitMs.toNat * 1000

/-- The client leaves the loop at the first reading at which the waiting time is over, if the
readings start at or after the receive time and never go back. -/
def Paces (stored : Bool) (args : Args) : Prop :=
  ∀ logFd i nextRpcId connection j response clock,
    response.header.resRecvTimeUs ≤ (clock 0).usec →
    (∀ n, (clock n).usec ≤ (clock (n + 1)).usec) →
    ∀ m, (waitLoop stored args).Run (clockEnv clock)
        (.wait logFd i nextRpcId connection j response) 0
        (.request logFd i nextRpcId connection (j + 1)) (m + 1) ↔ FirstDue args response clock m

/-- The longest waiting time whose microseconds are a 32-bit number. -/
def maxWaitMs : Nat := 4294967

theorem waitUs_toNat (waitMs : UInt32) : (waitUs waitMs).toNat = waitMs.toNat * 1000 % 2 ^ 32 := by
  rw [waitUs, UInt32.toNat_toUInt64, UInt32.toNat_mul]
  rfl

/-- A waiting time that is too long wraps around to a shorter one. -/
theorem waitUs_toNat_eq_iff (waitMs : UInt32) :
    (waitUs waitMs).toNat = waitMs.toNat * 1000 ↔ waitMs.toNat ≤ maxWaitMs := by
  rw [waitUs_toNat, maxWaitMs]
  omega

theorem usec_mono (hmono : ∀ n, (clock n).usec ≤ (clock (n + 1)).usec) (n : Nat) :
    (clock 0).usec ≤ (clock n).usec := by
  induction n with
  | zero => exact UInt64.le_refl _
  | succ n ih => exact UInt64.le_trans ih (hmono n)

theorem waits_iff {n : Nat} (hle : response.header.resRecvTimeUs ≤ (clock n).usec) :
    Waits args response clock n ↔
      (clock n).usec.toNat < response.header.resRecvTimeUs.toNat + (waitUs args.waitMs).toNat := by
  have hnat := UInt64.le_iff_toNat_le.mp hle
  rw [Waits, UInt64.lt_iff_toNat_lt, UInt64.toNat_sub_of_le _ _ hle]
  omega

theorem paces_of_le (h : args.waitMs.toNat ≤ maxWaitMs) : Paces stored args := by
  intro logFd i nextRpcId connection j response clock hstart hmono m
  have hwaits (n : Nat) : Waits args response clock n ↔
      (clock n).usec.toNat < response.header.resRecvTimeUs.toNat + args.waitMs.toNat * 1000 := by
    rw [← (waitUs_toNat_eq_iff args.waitMs).mpr h]
    exact waits_iff (UInt64.le_trans hstart (usec_mono hmono n))
  constructor
  · intro hrun
    obtain ⟨m', hm, hbefore, hleave⟩ := first_of_run hrun rfl
    obtain rfl : m = m' := by omega
    simp only [Nat.zero_add, hwaits] at hbefore hleave
    exact ⟨Nat.le_of_not_lt hleave, hbefore⟩
  · rintro ⟨hdue, hbefore⟩
    have hrun := @run_of_first stored args logFd i j nextRpcId connection response clock 0 m
    simp only [Nat.zero_add, hwaits] at hrun
    exact hrun hbefore (Nat.not_lt.mpr hdue)

/-- After a response at time zero, the client does not wait until a waiting time that is too long is
over. -/
theorem not_paces_of_lt (h : maxWaitMs < args.waitMs.toNat) : ¬Paces stored args := by
  intro hpaces
  have hwraps := mt (waitUs_toNat_eq_iff args.waitMs).mp (Nat.not_le.mpr h)
  have hle : (waitUs args.waitMs).toNat ≤ args.waitMs.toNat * 1000 := by
    rw [waitUs_toNat]
    exact Nat.mod_le _ _
  obtain ⟨early, hearly⟩ : ∃ early : Timeval, early.usec = waitUs args.waitMs :=
    ⟨⟨0, (waitUs args.waitMs).toInt64⟩, by simp [Timeval.usec]⟩
  obtain ⟨response, hzero⟩ : ∃ response : Frame, response.header.resRecvTimeUs.toNat = 0 :=
    ⟨.request [] [] (by decide), rfl⟩
  have hstart : response.header.resRecvTimeUs ≤ early.usec := by
    rw [UInt64.le_iff_toNat_le, hzero]
    exact Nat.zero_le _
  have hleave : ¬Waits args response (fun _ => early) (0 + 0) := by
    rw [@waits_iff args response (fun _ => early) _ hstart, hearly, hzero, Nat.zero_add]
    exact Nat.lt_irrefl _
  have hrun := @run_of_first stored args 0 0 0 0 ⟨0, 0, 0, 0, 0⟩ response _ 0 0
    (fun k hk => absurd hk (Nat.not_lt_zero k)) hleave
  obtain ⟨hdue, -⟩ :=
    (hpaces _ _ _ _ _ response (fun _ => early) hstart (fun _ => UInt64.le_refl _) 0).mp hrun
  rw [hearly, hzero] at hdue
  omega

/-- The client waits as long as it is told to just when the waiting time in microseconds does not
overflow 32 bits. -/
theorem paces_iff (stored : Bool) (args : Args) :
    Paces stored args ↔ args.waitMs.toNat ≤ maxWaitMs := by
  constructor
  · intro h
    by_contra hlt
    exact not_paces_of_lt (Nat.lt_of_not_le hlt) h
  · exact paces_of_le

/-- Almost fifty days, of which the client waits 704 microseconds. -/
theorem not_paces_fifty_days :
    ¬Paces true { oneRequest .Ping none none with waitMs := 4294968 } ∧
      ¬Paces false { oneRequest .Ping none none with waitMs := 4294968 } := by
  constructor <;>
    · apply not_paces_of_lt
      simp [maxWaitMs]

end Pacing

end SoftwareDynamics.Network

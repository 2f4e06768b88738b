import SoftwareDynamics.ProofKit.Threads
import Mathlib.Tactic.SplitIfs

/-! The spinlock of `spinlock.cc`, run by any number of threads.  Each access to the lock byte and
each increment of a thread's counter is one step. -/

namespace SoftwareDynamics.Network

open ProofKit

section Program

/-- One halving step of `FloorLg`, which looks for a bit of `mask`. -/
def narrow (mask : Int32) (width : Nat) (s : Nat × Int32) : Nat × Int32 :=
  if s.2 &&& mask ≠ 0 then (s.1 + width, s.2 >>> Int32.ofNat width) else s

/-- Return floor of log base2 of x. -/
def floorLg (x : Int32) : Nat :=
  (narrow 0x2 1 (narrow 0xc 2 (narrow 0xf0 4 (narrow 0xff00 8 (narrow (-0x10000) 16 (0, x)))))).1

theorem narrow_le (mask : Int32) (width : Nat) (s : Nat × Int32) :
    (narrow mask width s).1 ≤ s.1 + width := by
  unfold narrow
  split_ifs
  · exact Nat.le_refl _
  · exact Nat.le_add_right _ _

theorem floorLg_lt (x : Int32) : floorLg x < 32 := by
  have h16 := narrow_le (-0x10000) 16 (0, x)
  have h8 := narrow_le 0xff00 8 (narrow (-0x10000) 16 (0, x))
  have h4 := narrow_le 0xf0 4 (narrow 0xff00 8 (narrow (-0x10000) 16 (0, x)))
  have h2 := narrow_le 0xc 2 (narrow 0xf0 4 (narrow 0xff00 8 (narrow (-0x10000) 16 (0, x))))
  have h1 := narrow_le 0x2 1
    (narrow 0xc 2 (narrow 0xf0 4 (narrow 0xff00 8 (narrow (-0x10000) 16 (0, x)))))
  rw [← floorLg] at h1
  omega

/-- A one-byte spinlock, and a histogram of spin time in buckets of floor(lg(usec)). -/
structure LockAndHist where
  lock : UInt8
  hist : Fin 32 → UInt32

/-- `++hist[FloorLg(usec)]` -/
def LockAndHist.record (l : LockAndHist) (usec : Int32) : LockAndHist :=
  let bucket : Fin 32 := ⟨floorLg usec, floorLg_lt usec⟩
  { l with hist := Function.update l.hist bucket (l.hist bucket + 1) }

@[simp] theorem LockAndHist.record_lock (l : LockAndHist) (usec : Int32) :
    (l.record usec).lock = l.lock := rfl

/-- Where a thread is: outside the block that declares a `SpinLock`, at one of the steps of
`AcquireSpinlock`, in the rest of the constructor, or inside the block. -/
inductive SpinPc
  | outside
  | spin (safetyCount : Int32)
  | bump (safetyCount : Int32)
  | grab (safetyCount : Int32)
  | testAndSet (safetyCount : Int32)
  | construct (usec : Int32)
  | inside
  deriving DecidableEq

/-- The next step of a thread. -/
def spinStep : SpinPc × LockAndHist → SpinPc × LockAndHist
  | (.outside, l) => (.spin 0, l)
  | (.spin safetyCount, l) =>
    if l.lock ≠ 0 then (.bump safetyCount, l) else (.testAndSet safetyCount, l)
  | (.bump safetyCount, l) =>
    let safetyCount := safetyCount + 1
    if safetyCount > 100000000 then (.grab safetyCount, l) else (.spin safetyCount, l)
  | (.grab safetyCount, l) => (.spin safetyCount, { l with lock := 0 })
  | (.testAndSet safetyCount, l) =>
    if l.lock ≠ 0 then (.spin safetyCount, { l with lock := 1 })
    else (.construct 0, { l with lock := 1 })
  | (.construct usec, l) => (.inside, l.record usec)
  | (.inside, l) => (.outside, { l with lock := 0 })

/-- The control points of the threads, and the lock. -/
abbrev SpinConfig (T : Type) := Config T (fun _ => SpinPc) LockAndHist

/-- Threads that each run any number of blocks that declare a `SpinLock`. -/
def spinlock (T : Type) : Threads T (fun _ => SpinPc) LockAndHist := ⟨fun _ c c' => c' = spinStep c⟩

/-- No thread is in a block, and the lock and its histogram are all zero. -/
def spinInit (T : Type) : SpinConfig T := ⟨fun _ => .outside, ⟨0, fun _ => 0⟩⟩

/-- The thread has returned from `AcquireSpinlock` and has not yet released the lock. -/
def SpinPc.holds : SpinPc → Bool
  | .construct _ | .inside => true
  | _ => false

end Program

section Exclusion

variable {T : Type}

/-- Thread `t` is about to grab the lock, after more rounds than its safety count allows, while
another thread holds it. -/
def GrabsHeld (t : T) (c : SpinConfig T) : Prop :=
  ∃ safetyCount u, c.own t = .grab safetyCount ∧ safetyCount > 100000000 ∧ u ≠ t ∧
    (c.own u).holds

/-- At most one thread holds the lock, whose byte is then set, and only a thread that has exceeded
its safety count is about to grab it. -/
structure Exclusive (c : SpinConfig T) : Prop where
  unique : ∀ t u, (c.own t).holds → (c.own u).holds → t = u
  locked : ∀ t, (c.own t).holds → c.shared.lock ≠ 0
  exceeded : ∀ t safetyCount, c.own t = .grab safetyCount → safetyCount > 100000000

theorem exclusive_init : Exclusive (spinInit T) where
  unique _ _ h := absurd h Bool.false_ne_true
  locked _ h := absurd h Bool.false_ne_true
  exceeded _ _ h := nomatch h

variable [DecidableEq T] {c : SpinConfig T} {t : T}

/-- A move keeps exclusion if, while another thread holds the lock, it neither acquires the lock
nor clears its byte. -/
theorem Exclusive.update (h : Exclusive c) {pc : SpinPc} {l : LockAndHist}
    (others : ∀ u, u ≠ t → (c.own u).holds → pc.holds = false ∧ l.lock ≠ 0)
    (locked : pc.holds → l.lock ≠ 0)
    (exceeded : ∀ safetyCount, pc = .grab safetyCount → safetyCount > 100000000) :
    Exclusive (c.set t pc l) := by
  refine ⟨fun u v hu hv => ?_, fun u hu => ?_, fun u safetyCount hu => ?_⟩
  · by_cases hut : u = t <;> by_cases hvt : v = t
    · rw [hut, hvt]
    · rw [c.set_own_of_ne hvt] at hv
      rw [hut, Config.set_own_self, (others v hvt hv).1] at hu
      cases hu
    · rw [c.set_own_of_ne hut] at hu
      rw [hvt, Config.set_own_self, (others u hut hu).1] at hv
      cases hv
    · rw [c.set_own_of_ne hut] at hu
      rw [c.set_own_of_ne hvt] at hv
      exact h.unique u v hu hv
  · by_cases hut : u = t
    · rw [hut, Config.set_own_self] at hu
      exact locked hu
    · rw [c.set_own_of_ne hut] at hu
      exact (others u hut hu).2
  · by_cases hut : u = t
    · rw [hut, Config.set_own_self] at hu
      exact exceeded safetyCount hu
    · rw [c.set_own_of_ne hut] at hu
      exact h.exceeded u safetyCount hu

/-- Every step of a thread keeps exclusion, unless the thread grabs a lock that another holds. -/
theorem Exclusive.step (h : Exclusive c) (hok : ¬GrabsHeld t c) :
    Exclusive (c.set t (spinStep (c.own t, c.shared)).1 (spinStep (c.own t, c.shared)).2) := by
  have waits {pc : SpinPc} {l : LockAndHist} (hpc : pc.holds = false)
      (hlock : c.shared.lock ≠ 0 → l.lock ≠ 0)
      (hgrab : ∀ safetyCount, pc = .grab safetyCount → safetyCount > 100000000) :
      Exclusive (c.set t pc l) :=
    h.update (fun u _ hu => ⟨hpc, hlock (h.locked u hu)⟩) (by simp [hpc]) hgrab
  have alone (ht : (c.own t).holds) {pc : SpinPc} {l : LockAndHist}
      (hlock : pc.holds → l.lock ≠ 0)
      (hgrab : ∀ safetyCount, pc = .grab safetyCount → safetyCount > 100000000) :
      Exclusive (c.set t pc l) :=
    h.update (fun u hut hu => absurd (h.unique u t hu ht) hut) hlock hgrab
  have one_ne : (1 : UInt8) ≠ 0 := by decide
  cases hpc : c.own t with
  | outside => exact waits rfl id nofun
  | spin safetyCount =>
    simp only [spinStep]
    split_ifs <;> exact waits rfl id nofun
  | bump safetyCount =>
    simp only [spinStep]
    split_ifs with hlimit
    · refine waits rfl id fun n hn => ?_
      cases hn
      exact hlimit
    · exact waits rfl id nofun
  | grab safetyCount =>
    refine h.update (fun u hut hu => absurd ?_ hok) nofun nofun
    exact ⟨safetyCount, u, hpc, h.exceeded t safetyCount hpc, hut, hu⟩
  | testAndSet safetyCount =>
    simp only [spinStep]
    split_ifs with hlock
    · exact waits rfl (fun _ => one_ne) nofun
    · exact h.update (fun u _ hu => absurd (h.locked u hu) hlock) (fun _ => one_ne) nofun
  | construct usec =>
    exact alone (by rw [hpc]; rfl) (fun _ => h.locked t (by rw [hpc]; rfl)) nofun
  | inside =>
    exact alone (by rw [hpc]; rfl) nofun nofun

/-- Two threads never hold the lock together, in any run in which no thread that has exceeded its
safety count grabs the lock from another. -/
theorem spinlock_excludes
    (hrun : (spinlock T).Runs (fun t c => ¬GrabsHeld t c) (spinInit T) c) :
    ∀ t u, (c.own t).holds → (c.own u).holds → t = u := by
  refine (hrun.invariant (fun t c pc l h hok hmove => ?_) exclusive_init).unique
  have hstep := h.step hok
  rw [← hmove] at hstep
  exact hstep

end Exclusion

section Runs

variable {T : Type} [DecidableEq T] {ok : T → SpinConfig T → Prop}
variable {c₀ c : SpinConfig T}

/-- A thread that finds the lock free acquires it and enters its block. -/
theorem acquire_run (h : (spinlock T).Runs ok c₀ c) (t : T)
    (hok : ∀ c : SpinConfig T, (∀ n, c.own t ≠ .grab n) → ok t c) {n : Int32}
    (hpc : c.own t = .spin n) (hlock : c.shared.lock = 0) :
    ∃ c', (spinlock T).Runs ok c₀ c' ∧ c'.own t = .inside ∧ c'.shared.lock ≠ 0 ∧
      ∀ u, u ≠ t → c'.own u = c.own u := by
  have h1 := h.move t (l := .testAndSet n) (s := c.shared)
    (by simp [spinlock, spinStep, hpc, hlock]) (hok _ (by simp [hpc]))
  have h2 := h1.move t (l := .construct 0) (s := { c.shared with lock := 1 })
    (by simp [spinlock, spinStep, hlock]) (hok _ (by simp))
  have h3 := h2.move t (l := .inside) (s := ({ c.shared with lock := 1 } : LockAndHist).record 0)
    (by simp [spinlock, spinStep]) (hok _ (by simp))
  exact ⟨_, h3, by simp, by simp, fun u hu => by simp [hu]⟩

end Runs

/-- Two threads find the lock free, and one of them enters its block.  The other one then finds the
lock set, and waits on. -/
theorem spinlock_enters : ∃ c : SpinConfig Bool, c.own true = .inside ∧ c.own false = .spin 0 ∧
    c.shared.lock ≠ 0 ∧ ∀ t u, (c.own t).holds → (c.own u).holds → t = u := by
  have hfirst : (spinlock Bool).Runs (fun t c => ¬GrabsHeld t c) _ _ :=
    (Threads.Runs.start (spinInit Bool)).move false (l := .spin 0) rfl fun ⟨_, _, h, _⟩ => nomatch h
  have htest := hfirst.move false (l := .testAndSet 0) (s := (spinInit Bool).shared) rfl
    fun ⟨_, _, h, _⟩ => nomatch h
  have hsecond := htest.move true (l := .spin 0) (s := (spinInit Bool).shared) rfl
    fun ⟨_, _, h, _⟩ => nomatch h
  obtain ⟨c, hrun, hin, hlock, hothers⟩ := acquire_run hsecond true
    (fun c hc ⟨n, _, h, _⟩ => hc n h) (Config.set_own_self _ true _ _) rfl
  have hpc : c.own false = .testAndSet 0 := hothers false (by decide)
  have hwait := hrun.move false (l := .spin 0) (s := { c.shared with lock := 1 })
    (by simp [spinlock, spinStep, hpc, hlock]) fun ⟨_, _, h, _⟩ => by simp [hpc] at h
  refine ⟨_, ?_, ?_, ?_, spinlock_excludes hwait⟩
  · exact (Config.set_own_of_ne c (by decide) _ _).trans hin
  · exact Config.set_own_self _ false _ _
  · exact show (1 : UInt8) ≠ 0 by decide

/-- While one thread stays in its block, another one's counter reaches any count up to the limit. -/
theorem spin_run (n : Nat) (hn : n ≤ 100000000) :
    ∃ c, (spinlock Bool).Runs (fun _ _ => True) (spinInit Bool) c ∧ c.own false = .inside ∧
      c.own true = .spin (Int32.ofNat n) ∧ c.shared.lock ≠ 0 := by
  induction n with
  | zero =>
    have h1 : (spinlock Bool).Runs (fun _ _ => True) _ _ :=
      (Threads.Runs.start (spinInit Bool)).move true (l := .spin 0) rfl trivial
    have h2 := h1.move false (l := .spin 0) (s := (spinInit Bool).shared) rfl trivial
    obtain ⟨c, hrun, hin, hlock, hothers⟩ := acquire_run h2 false (fun _ _ => trivial)
      (Config.set_own_self _ false _ _) rfl
    exact ⟨c, hrun, hin, by rw [hothers true (by decide)]; rfl, hlock⟩
  | succ n ih =>
    obtain ⟨c, hrun, hin, hpc, hlock⟩ := ih (by omega)
    have hle : ¬Int32.ofNat n + 1 > 100000000 := by
      have hsucc : Int32.ofNat n + 1 = Int32.ofNat (n + 1) := (Int32.ofNat_add n 1).symm
      have hlimit : (100000000 : Int32).toInt = 100000000 := by decide
      rw [hsucc, gt_iff_lt, Int32.lt_iff_toInt_lt, Int32.toInt_ofNat_of_lt (by omega), hlimit]
      omega
    have h1 := hrun.move true (l := .bump (Int32.ofNat n)) (s := c.shared)
      (by simp [spinlock, spinStep, hpc, hlock]) trivial
    have h2 := h1.move true (l := .spin (Int32.ofNat n + 1)) (s := c.shared)
      (by simp [spinlock, spinStep, hle]) trivial
    exact ⟨_, h2, by simp [hin], by simp, hlock⟩

/-- A thread that has waited too long enters its block while another one is still inside. -/
theorem spinlock_grabs :
    ∃ c, (spinlock Bool).Runs (fun _ _ => True) (spinInit Bool) c ∧ c.own false = .inside ∧
      c.own true = .inside := by
  obtain ⟨c, hrun, hin, hpc, hlock⟩ := spin_run 100000000 (Nat.le_refl _)
  have h1 := hrun.move true (l := .bump 100000000) (s := c.shared)
    (by simp [spinlock, spinStep, hpc, hlock]) trivial
  have h2 := h1.move true (l := .grab 100000001) (s := c.shared)
    (by simp [spinlock, spinStep]) trivial
  have h3 := h2.move true (l := .spin 100000001) (s := { c.shared with lock := 0 })
    (by simp [spinlock, spinStep]) trivial
  obtain ⟨c', hrun', hpc', -, hothers⟩ := acquire_run h3 true (fun _ _ => trivial)
    (Config.set_own_self _ true _ _) rfl
  exact ⟨c', hrun', by rw [hothers false (by decide)]; simp [hin], hpc'⟩

end SoftwareDynamics.Network

import SoftwareDynamics.Network.Spinlock
import SoftwareDynamics.Network.History
import SoftwareDynamics.ProofKit.Locked

/-! The blocks of `handle_rpc_write` and `handle_rpc_read` that declare a `SpinLock`, step by step.
The operations of the hash table behind the keystore take any number of steps, and do what they
should only where nothing else is done to the table meanwhile. -/

namespace SoftwareDynamics.Network

open ProofKit Prog

section Model

/-- A hash table: what its steps do, and the code of its operations.  `find` gives no iterator if it
gets to `end()`. -/
structure HashTable (D Iter BOp : Type) (BRes : BOp → Type) where
  access : Env BOp BRes D
  empty : D
  emplace : Bytes → Value → Prog BOp BRes Unit
  find : Bytes → Prog BOp BRes (Option Iter)
  second : Iter → Prog BOp BRes Value

variable {D Iter BOp : Type} {BRes : BOp → Type}

/-- The block of a request: what it does to the keystore while it holds the lock. -/
def HashTable.block (m : HashTable D Iter BOp BRes) :
    (op : SysOp) → Option (Prog BOp BRes op.Result)
  | .emplace key value => some (m.emplace key.1 value)
  | .find key => some do
    match ← m.find key with
    | none => return none
    | some iter => return some (← m.second iter)
  | _ => none

theorem SpinPc.outside_ne_inside : SpinPc.outside ≠ .inside := by decide

/-- The lock that a `SpinLock` acquires when it is declared and releases at the end of its block. -/
def spinLock : Lock SpinPc LockAndHist where
  step := spinStep
  outside := .outside
  inside := .inside
  releases _ := rfl
  outside_ne := SpinPc.outside_ne_inside

/-- The blocks of the server.  All other operations may have any results. -/
def HashTable.blocks (m : HashTable D Iter BOp BRes) :
    Blocks SysOp SysOp.Result BOp BRes SpinPc LockAndHist Unit D where
  body := m.block
  env := anyEnv
  access := m.access
  lock := spinLock

/-- The code of a listener thread in progress, in one of its blocks or outside of them. -/
abbrev LockedCode (BOp : Type) (BRes : BOp → Type) :=
  Locked SysOp SysOp.Result BOp BRes SpinPc ListenPc

abbrev LockedConfig (T D BOp : Type) (BRes : BOp → Type) :=
  Config T (fun _ => LockedCode BOp BRes) (Guarded Unit D LockAndHist)

/-- The listener threads of the server, one for each port, over a hash table. -/
def lockedListeners {T : Type} (m : HashTable D Iter BOp BRes) (port : T → Int32) :
    Threads T (fun _ => LockedCode BOp BRes) (Guarded Unit D LockAndHist) :=
  m.blocks.threads fun t => rpcListen (port t)

/-- Every thread is at its start, the lock is free, and the hash table is empty. -/
def lockedInit (T : Type) (m : HashTable D Iter BOp BRes) : LockedConfig T D BOp BRes :=
  ⟨fun _ => .outside (.ret .start), ⟨(), m.empty, ⟨0, fun _ => 0⟩⟩⟩

/-- What the operations of a hash table do where nothing else is done to it meanwhile. -/
structure HashTable.Sequential (m : HashTable D Iter BOp BRes) (holds : D → Keystore → Prop) :
    Prop where
  empty : holds m.empty ∅
  emplace {d d' keystore key value r} : holds d keystore →
    Exec m.access (m.emplace key value) d r d' → holds d' (keystore.emplace key value)
  missing {d d' keystore key} : holds d keystore →
    Exec m.access (m.find key) d none d' → keystore.lookup key = none ∧ holds d' keystore
  found {d d₁ d₂ keystore key iter value} : holds d keystore →
    Exec m.access (m.find key) d (some iter) d₁ → Exec m.access (m.second iter) d₁ value d₂ →
    keystore.lookup key = some value ∧ holds d₂ keystore

end Model

section Refinement

variable {D Iter BOp T : Type} {BRes : BOp → Type} [DecidableEq T]
variable {m : HashTable D Iter BOp BRes} {holds : D → Keystore → Prop} {port : T → Int32}
variable {c : LockedConfig T D BOp BRes}

theorem spinLock_alone {v : SpinConfig T}
    (hrun : (spinLock.threads T).Runs (fun t v => ¬GrabsHeld t v) (spinInit T) v) :
    Exclusive v := by
  refine hrun.invariant (fun t v pc l h hok hmove => ?_) exclusive_init
  have hstep := h.step hok
  rw [← show (pc, l) = spinStep (v.own t, v.shared) from hmove] at hstep
  exact hstep

omit [DecidableEq T] in
theorem Exclusive.alone {v : SpinConfig T} (h : Exclusive v) : spinLock.Alone v := by
  intro t u ht hu
  exact h.unique t u (by rw [ht]; rfl) (by rw [hu]; rfl)

/-- What a block does in one step to the hash table is what it does to the keystore. -/
theorem HashTable.Sequential.follow (seq : m.Sequential holds) {x x' : Unit × D} {s : Store}
    {op : SysOp} {r : op.Result} (h : holds x.2 s.keystore) (hact : m.blocks.atomic.act x op r x') :
    ∃ s', storeEnv.act s op r s' ∧ holds x'.2 s'.keystore := by
  cases op with
  | emplace key value => exact ⟨s.write key.1 value, rfl, seq.emplace h hact.2⟩
  | find key =>
    obtain ⟨iter, d, hfind, hrest⟩ := Exec.of_bind hact.2
    cases iter with
    | none =>
      obtain ⟨hnone, hd⟩ := seq.missing h hfind
      cases hrest
      exact ⟨s, ⟨hnone.symm, rfl⟩, hd⟩
    | some iter =>
      obtain ⟨value, d', hsecond, hret⟩ := Exec.of_bind hrest
      obtain ⟨hsome, hd⟩ := seq.found h hfind hsecond
      cases hret
      exact ⟨s, ⟨hsome.symm, rfl⟩, hd⟩
  | _ => exact ⟨s, rfl, by rw [hact.2]; exact h⟩

/-- In every run in which no thread grabs the lock from another one, the listener threads do as if
each of their blocks were a single step on the keystore, and where no thread is inside a block the
hash table holds what the keystore holds. -/
theorem blocks_follow (seq : m.Sequential holds)
    (hrun : (lockedListeners m port).Runs (fun t c => ¬GrabsHeld t (m.blocks.lockView c))
      (lockedInit T m) c) :
    ∃ d : StoreConfig T, (listeners port).Runs (fun _ _ => True) (serverInit T) d ∧
      (∀ t, d.own t = (c.own t).code) ∧
      ((∀ t, (c.own t).pc spinLock ≠ .inside) → holds c.shared.data d.shared.keystore) := by
  obtain ⟨⟨own, x⟩, hatomic, hpending⟩ := m.blocks.runs_atomic (P := fun t => rpcListen (port t))
    (fun t v => ¬GrabsHeld t v) hrun (fun v hv => (spinLock_alone hv).alone) .init
  obtain ⟨s, hstore, hholds⟩ := hatomic.follow (fun _ => storeEnv)
    (fun x s => holds x.2 s.keystore) (fun _ _ _ _ _ _ h hact => seq.follow h hact)
    (x := ⟨∅, []⟩) seq.empty
  refine ⟨⟨own, s⟩, hstore, hpending.own, fun hnone => ?_⟩
  rw [← hpending.data hnone]
  exact hholds

end Refinement

section Progress

variable {D Iter BOp T : Type} {BRes : BOp → Type} [DecidableEq T]
variable {m : HashTable D Iter BOp BRes} {port : T → Int32} {c : LockedConfig T D BOp BRes}

/-- The byte of the lock is set only while a thread holds the lock. -/
def LockHeld (v : SpinConfig T) : Prop := v.shared.lock ≠ 0 → ∃ t, (v.own t).holds

omit [DecidableEq T] in
theorem lockHeld_init : LockHeld (spinInit T) := fun h => absurd rfl h

theorem LockHeld.step {v : SpinConfig T} {t : T} (h : LockHeld v) :
    LockHeld (v.set t (spinStep (v.own t, v.shared)).1 (spinStep (v.own t, v.shared)).2) := by
  have waits {pc : SpinPc} {l : LockAndHist} (hpc : (v.own t).holds = false)
      (hlock : l.lock ≠ 0 → v.shared.lock ≠ 0) : LockHeld (v.set t pc l) := by
    intro hset
    obtain ⟨u, hu⟩ := h (hlock hset)
    have hut : u ≠ t := by
      rintro rfl
      rw [hpc] at hu
      cases hu
    exact ⟨u, by rwa [v.set_own_of_ne hut]⟩
  have enters {pc : SpinPc} {l : LockAndHist} (hpc : pc.holds) : LockHeld (v.set t pc l) :=
    fun _ => ⟨t, by rwa [Config.set_own_self]⟩
  have frees {pc : SpinPc} {l : LockAndHist} (hlock : l.lock = 0) : LockHeld (v.set t pc l) :=
    fun hset => absurd hlock hset
  cases hpc : v.own t with
  | outside => exact waits (by rw [hpc]; rfl) id
  | spin safetyCount =>
    simp only [spinStep]
    split_ifs <;> exact waits (by rw [hpc]; rfl) id
  | bump safetyCount =>
    simp only [spinStep]
    split_ifs <;> exact waits (by rw [hpc]; rfl) id
  | grab safetyCount => exact frees rfl
  | testAndSet safetyCount =>
    simp only [spinStep]
    split_ifs with hlock
    · exact waits (by rw [hpc]; rfl) fun _ => hlock
    · exact enters rfl
  | construct usec => exact enters rfl
  | inside => exact frees rfl

/-- The steps of a thread that has the lock to itself. -/
abbrev Acquires : SpinPc × LockAndHist → SpinPc × LockAndHist → Prop :=
  Relation.ReflTransGen fun x y => x.1 ≠ .inside ∧ y = spinStep x

/-- A thread that finds the lock free, and any thread that has acquired it, comes to its block. -/
theorem acquires_inside (q : SpinPc) {l : LockAndHist} (h : q.holds ∨ l.lock = 0) :
    ∃ l', Acquires (q, l) (.inside, l') := by
  have fromSpin (n : Int32) {l : LockAndHist} (hlock : l.lock = 0) :
      ∃ l', Acquires (.spin n, l) (.inside, l') := by
    have h1 : Acquires (.spin n, l) (.testAndSet n, l) :=
      .single ⟨by simp, by simp [spinStep, hlock]⟩
    have h2 := h1.tail (c := (.construct 0, { l with lock := 1 }))
      ⟨by simp, by simp [spinStep, hlock]⟩
    exact ⟨_, h2.tail ⟨by simp, rfl⟩⟩
  have first {p : SpinPc × LockAndHist} (hne : q ≠ .inside) (hstep : p = spinStep (q, l))
      (hrest : ∃ l', Acquires p (.inside, l')) : ∃ l', Acquires (q, l) (.inside, l') := by
    obtain ⟨l', hrest⟩ := hrest
    exact ⟨l', .head ⟨hne, hstep⟩ hrest⟩
  cases q with
  | outside =>
    have hlock := h.resolve_left Bool.false_ne_true
    exact first (by simp) rfl (fromSpin 0 hlock)
  | spin safetyCount => exact fromSpin safetyCount (h.resolve_left Bool.false_ne_true)
  | bump safetyCount =>
    have hlock := h.resolve_left Bool.false_ne_true
    by_cases hlimit : safetyCount + 1 > 100000000
    · obtain ⟨l', hrest⟩ := @fromSpin (safetyCount + 1) { l with lock := 0 } rfl
      exact first (p := (.grab (safetyCount + 1), l)) (by simp) (by simp [spinStep, hlimit])
        ⟨l', hrest.head ⟨by simp, rfl⟩⟩
    · exact first (p := (.spin (safetyCount + 1), l)) (by simp) (by simp [spinStep, hlimit])
        (fromSpin _ hlock)
  | grab safetyCount => exact first (by simp) rfl (fromSpin safetyCount rfl)
  | testAndSet safetyCount =>
    have hlock := h.resolve_left Bool.false_ne_true
    refine first (p := (.construct 0, { l with lock := 1 })) (by simp)
      (by simp [spinStep, hlock]) ?_
    exact ⟨_, .single ⟨by simp, rfl⟩⟩
  | construct usec => exact ⟨_, .single ⟨by simp, rfl⟩⟩
  | inside => exact ⟨l, .refl⟩

/-- A thread does not grab the lock from another one if no other thread holds it. -/
theorem not_grabsHeld_set {t : T} (hothers : ∀ u, u ≠ t → ((c.own u).pc spinLock).holds = false)
    (l : LockedCode BOp BRes) (s : Guarded Unit D LockAndHist) :
    ¬GrabsHeld t (m.blocks.lockView (c.set t l s)) := by
  rintro ⟨_, u, -, -, hut, hu⟩
  have hview : (m.blocks.lockView (c.set t l s)).own u = (c.own u).pc spinLock := by
    simp [Blocks.lockView, hut, HashTable.blocks]
  rw [hview, hothers u hut] at hu
  cases hu

/-- A thread in `AcquireSpinlock` that is not about to grab the lock may take its next step. -/
theorem runs_spin {c₀ : LockedConfig T D BOp BRes}
    (hrun : (lockedListeners m port).Runs (fun t c => ¬GrabsHeld t (m.blocks.lockView c)) c₀ c)
    {t : T} {op : SysOp} {k : op.Result → Sys ListenPc} {q r : SpinPc} {l : LockAndHist}
    {b : Prog BOp BRes op.Result} (hown : c.own t = .block op k q b) (hinside : q ≠ .inside)
    (hgrab : ∀ n, q ≠ .grab n) (hstep : (r, l) = spinStep (q, c.shared.lock)) :
    (lockedListeners m port).Runs (fun t c => ¬GrabsHeld t (m.blocks.lockView c)) c₀
      (c.set t (.block op k r b) { c.shared with lock := l }) := by
  obtain ⟨rfl, rfl⟩ := Prod.mk.inj hstep
  refine hrun.move t (by rw [hown]; exact .acquire hinside) fun ⟨n, _, hpc, _⟩ => hgrab n ?_
  rwa [show (m.blocks.lockView c).own t = (c.own t).pc spinLock from rfl, hown] at hpc

/-- A thread gets through its block while the others rest, if it holds the lock or the lock is free,
and no other thread holds it. -/
theorem finishes {c₀ : LockedConfig T D BOp BRes}
    (hrun : (lockedListeners m port).Runs (fun t c => ¬GrabsHeld t (m.blocks.lockView c)) c₀ c)
    (total : ∀ d bop, ∃ r d', m.access.act d bop r d') {t : T} {op : SysOp}
    {k : op.Result → Sys ListenPc} {q : SpinPc} {b : Prog BOp BRes op.Result}
    (hown : c.own t = .block op k q b) (hfree : q.holds ∨ c.shared.lock.lock = 0)
    (hothers : ∀ u, u ≠ t → ((c.own u).pc spinLock).holds = false) :
    ∃ r s, (lockedListeners m port).Runs (fun t c => ¬GrabsHeld t (m.blocks.lockView c)) c₀
      (c.set t (.outside (k r)) s) ∧ Exec m.access b c.shared.data r s.data ∧ s.lock.lock = 0 := by
  have hok := not_grabsHeld_set (m := m) hothers
  obtain ⟨l, hacquire⟩ := acquires_inside q hfree
  have hinside := Blocks.runs_acquire (B := m.blocks) hrun hown hok hacquire
  obtain ⟨r, d, hexec, hleave⟩ := Blocks.runs_leave (B := m.blocks) hinside
    (Config.set_own_self _ _ _ _) (fun b s => by rw [Config.set_set]; exact hok _ s) total
  rw [Config.set_set] at hleave
  exact ⟨r, _, hleave, hexec, rfl⟩

/-- No deadlock: in every run in which no thread grabs the lock from another one, the byte of the
lock is set exactly while a thread holds it, and a thread that is in a block, or waits for the lock,
may come to the end of its block, provided that the operations of the hash table return. -/
theorem blocks_complete (total : ∀ d bop, ∃ r d', m.access.act d bop r d')
    (hrun : (lockedListeners m port).Runs (fun t c => ¬GrabsHeld t (m.blocks.lockView c))
      (lockedInit T m) c) :
    (c.shared.lock.lock ≠ 0 ↔ ∃ t, ((c.own t).pc spinLock).holds) ∧
    ∀ t op k q b, c.own t = .block op k q b →
      ∃ r c', (lockedListeners m port).Runs (fun t c => ¬GrabsHeld t (m.blocks.lockView c)) c c' ∧
        c'.own t = .outside (k r) := by
  have hlocks := m.blocks.runs_lock (P := fun t => rpcListen (port t))
    (fun t v => ¬GrabsHeld t v) hrun
  have hexclusive : Exclusive (m.blocks.lockView c) := spinLock_alone hlocks
  have hheld : LockHeld (m.blocks.lockView c) := by
    refine Threads.Runs.invariant hlocks (fun t v pc l h _ hmove => ?_) lockHeld_init
    have hstep := h.step (t := t)
    rw [← show (pc, l) = spinStep (v.own t, v.shared) from hmove] at hstep
    exact hstep
  refine ⟨⟨hheld, fun ⟨t, ht⟩ => hexclusive.locked t ht⟩, fun t op k q b hown => ?_⟩
  by_cases hother : ∃ u, u ≠ t ∧ ((c.own u).pc spinLock).holds
  · -- The thread that holds the lock leaves its block first.
    obtain ⟨u, hut, hu⟩ := hother
    have hidle (v : T) (hvu : v ≠ u) : ((c.own v).pc spinLock).holds = false :=
      Bool.eq_false_iff.mpr fun hv => hvu (hexclusive.unique v u hv hu)
    cases hholder : c.own u with
    | outside p =>
      rw [hholder] at hu
      cases hu
    | block op' k' q' b' =>
      rw [hholder] at hu
      obtain ⟨r', s', hfirst, -, hlock⟩ := finishes (.start c) total hholder (.inl hu) hidle
      obtain ⟨r, s, hsecond, -, -⟩ := finishes (c := c.set u (.outside (k' r')) s') (t := t) hfirst
        total (by rwa [c.set_own_of_ne hut.symm]) (.inr hlock) fun v hvt => by
          by_cases hvu : v = u
          · rw [hvu, Config.set_own_self]
            rfl
          · rw [c.set_own_of_ne hvu]
            exact hidle v hvu
      exact ⟨r, _, hsecond, Config.set_own_self _ _ _ _⟩
  · have hothers (u : T) (hut : u ≠ t) : ((c.own u).pc spinLock).holds = false :=
      Bool.eq_false_iff.mpr fun hu => hother ⟨u, hut, hu⟩
    have hfree : q.holds ∨ c.shared.lock.lock = 0 := by
      by_cases hq : q.holds
      · exact .inl hq
      · refine .inr (by_contra fun hset => ?_)
        obtain ⟨u, hu⟩ := hheld hset
        by_cases hut : u = t
        · subst hut
          exact hq (by simpa [Blocks.lockView, hown, Locked.pc] using hu)
        · have hnot := hothers u hut
          rw [show (c.own u).pc spinLock = (m.blocks.lockView c).own u from rfl, hu] at hnot
          cases hnot
    obtain ⟨r, s, hdone, -, -⟩ := finishes (.start c) total hown hfree hothers
    exact ⟨r, _, hdone, Config.set_own_self _ _ _ _⟩

/-- Every thread is outside of all blocks, and the lock is free. -/
structure Settled (c : LockedConfig T D BOp BRes) (d : StoreConfig T)
    (holds : D → Keystore → Prop) : Prop where
  own : ∀ t, c.own t = .outside (d.own t)
  free : c.shared.lock.lock = 0
  keystore : holds c.shared.data d.shared.keystore

theorem Settled.set {holds : D → Keystore → Prop} {d : StoreConfig T} (h : Settled c d holds)
    (t : T) {p : Sys ListenPc} {s : Guarded Unit D LockAndHist} {s' : Store}
    (hlock : s.lock.lock = 0) (hholds : holds s.data s'.keystore) :
    Settled (c.set t (.outside p) s) (d.set t p s') holds := by
  refine ⟨fun u => ?_, hlock, hholds⟩
  by_cases hut : u = t
  · subst hut
    simp
  · simpa [hut] using h.own u

omit [DecidableEq T] in
/-- An operation that is no block leaves the store as it is. -/
theorem storeEnv_plain {op : SysOp} {r : op.Result} {s s' : Store} (h : m.block op = none)
    (hact : storeEnv.act s op r s') : s' = s := by
  cases op with
  | emplace key value => cases h
  | find key => cases h
  | _ => exact hact

/-- A block has one result. -/
theorem storeEnv_block {op : SysOp} {b : Prog BOp BRes op.Result} {r r' : op.Result}
    {s s₁ s₂ : Store} (h : m.block op = some b) (hact : storeEnv.act s op r s₁)
    (hact' : storeEnv.act s op r' s₂) : r = r' ∧ s₁ = s₂ := by
  cases op with
  | emplace key value => exact ⟨rfl, Eq.trans hact (Eq.symm hact')⟩
  | find key => exact ⟨hact.1.trans hact'.1.symm, hact.2.trans hact'.2.symm⟩
  | _ => cases h

/-- Nothing is lost: every run of the listener threads in which each block is a single step on the
keystore is a run of theirs, step by step, provided that the operations of the hash table return. -/
theorem blocks_reach {holds : D → Keystore → Prop} (seq : m.Sequential holds)
    (total : ∀ d bop, ∃ r d', m.access.act d bop r d') {d : StoreConfig T}
    (hrun : (listeners port).Runs (fun _ _ => True) (serverInit T) d) :
    ∃ c : LockedConfig T D BOp BRes,
      (lockedListeners m port).Runs (fun t c => ¬GrabsHeld t (m.blocks.lockView c))
        (lockedInit T m) c ∧
      Settled c d holds := by
  induction hrun with
  | refl => exact ⟨lockedInit T m, .start _, fun _ => rfl, rfl, seq.empty⟩
  | @tail d _ _ hstep ih =>
    obtain ⟨t, ⟨p, s', hmove, rfl⟩, -⟩ := hstep
    obtain ⟨c, hrun, hsettled⟩ := ih
    have hown := hsettled.own t
    have hidle (u : T) : ((c.own u).pc spinLock).holds = false := by
      rw [hsettled.own u]
      rfl
    have hok : ¬GrabsHeld t (m.blocks.lockView c) := by
      rintro ⟨_, u, -, -, -, hu⟩
      rw [show (m.blocks.lockView c).own u = (c.own u).pc spinLock from rfl, hidle u] at hu
      cases hu
    generalize d.own t = own at hmove hown
    cases hmove with
    | @round pc _ hgo =>
      refine ⟨_, hrun.move t (s := c.shared) (by rw [hown]; exact .round hgo) hok, ?_⟩
      exact hsettled.set t hsettled.free hsettled.keystore
    | @call op k r _ _ hact =>
      cases hbody : m.block op with
      | none =>
        obtain rfl := storeEnv_plain hbody hact
        refine ⟨_, hrun.move t (l := .outside (k r)) (s := c.shared)
          (by rw [hown]; exact .call hbody trivial) hok, ?_⟩
        exact hsettled.set t hsettled.free hsettled.keystore
      | some b =>
        have henter := hrun.move t (l := .block op k (.spin 0) b) (s := c.shared)
          (by rw [hown]; exact .enter hbody) hok
        obtain ⟨r', s, hdone, hexec, hlock⟩ := finishes henter total (Config.set_own_self _ _ _ _)
          (.inr hsettled.free) fun u hut => by rw [c.set_own_of_ne hut]; exact hidle u
        rw [Config.set_set] at hdone
        have hatomic : m.blocks.atomic.act ((), c.shared.data) op r' ((), s.data) := by
          simp only [Blocks.atomic, HashTable.blocks, hbody]
          exact ⟨trivial, hexec⟩
        obtain ⟨s'', hact', hholds⟩ := seq.follow hsettled.keystore hatomic
        obtain ⟨rfl, rfl⟩ := storeEnv_block hbody hact hact'
        exact ⟨_, hdone, hsettled.set t hlock hholds⟩

end Progress

section Atomicity

variable {D Iter BOp T : Type} {BRes : BOp → Type} [DecidableEq T]
variable {m : HashTable D Iter BOp BRes} {holds : D → Keystore → Prop} {port : T → Int32}

/-- The `SpinLock` makes the blocks of the server single steps: as long as no thread grabs the lock
from another one, the listener threads come, step by step, just where they come if each block is a
single step on the keystore. -/
theorem keystore_blocks_atomic (seq : m.Sequential holds)
    (total : ∀ d bop, ∃ r d', m.access.act d bop r d') :
    (∀ c : LockedConfig T D BOp BRes,
      (lockedListeners m port).Runs (fun t c => ¬GrabsHeld t (m.blocks.lockView c))
        (lockedInit T m) c →
      ∃ d : StoreConfig T, (listeners port).Runs (fun _ _ => True) (serverInit T) d ∧
        (∀ t, d.own t = (c.own t).code) ∧
        ((∀ t, (c.own t).pc spinLock ≠ .inside) → holds c.shared.data d.shared.keystore)) ∧
    ∀ d : StoreConfig T, (listeners port).Runs (fun _ _ => True) (serverInit T) d →
      ∃ c : LockedConfig T D BOp BRes,
        (lockedListeners m port).Runs (fun t c => ¬GrabsHeld t (m.blocks.lockView c))
          (lockedInit T m) c ∧
        (∀ t, c.own t = .outside (d.own t)) ∧ holds c.shared.data d.shared.keystore := by
  refine ⟨fun c hrun => blocks_follow seq hrun, fun d hrun => ?_⟩
  obtain ⟨c, hlocked, hsettled⟩ := blocks_reach seq total hrun
  exact ⟨c, hlocked, hsettled.own, hsettled.keystore⟩

end Atomicity

section Bucket

/-- The steps of a hash table that has one bucket: a search through its nodes, a new first node, and
a look at the value of a node. -/
inductive BucketOp
  | search (key : Bytes)
  | prepend (key : Bytes) (value : Value)
  | load (node : Bytes × Value)

abbrev BucketOp.Result : BucketOp → Type
  | .search _ => Option (Bytes × Value)
  | .prepend _ _ => Unit
  | .load _ => Value

def bucketEnv : Env BucketOp BucketOp.Result (List (Bytes × Value)) where
  allows _ _ := True
  act d op r d' :=
    match op, r with
    | .search key, r => r = d.find? (fun node => node.1 = key) ∧ d' = d
    | .prepend key value, _ => d' = (key, value) :: d
    | .load node, r => r = node.2 ∧ d' = d

abbrev bucketStep (op : BucketOp) : Prog BucketOp BucketOp.Result op.Result := .perform op

/-- A hash table with one bucket, where two threads that add the same key might both miss it. -/
def bucket : HashTable (List (Bytes × Value)) (Bytes × Value) BucketOp BucketOp.Result where
  access := bucketEnv
  empty := []
  emplace key value := do
    if (← bucketStep (.search key)).isSome then return ()
    else bucketStep (.prepend key value)
  find key := bucketStep (.search key)
  second node := bucketStep (.load node)

/-- The first node of a key has its value. -/
def bucketHolds (d : List (Bytes × Value)) (keystore : Keystore) : Prop :=
  ∀ key, keystore.lookup key = (d.find? fun node => node.1 = key).map Prod.snd

theorem bucket_total (d : List (Bytes × Value)) (bop : BucketOp) :
    ∃ r d', bucket.access.act d bop r d' := by
  cases bop with
  | search key => exact ⟨_, d, rfl, rfl⟩
  | prepend key value => exact ⟨(), _, rfl⟩
  | load node => exact ⟨node.2, d, rfl, rfl⟩

theorem bucket_sequential : bucket.Sequential bucketHolds where
  empty _ := rfl
  emplace := by
    intro d d' keystore key value r h hexec k
    obtain ⟨node, d₁, hsearch, hrest⟩ := Exec.of_bind hexec
    obtain ⟨rfl, rfl⟩ := hsearch.of_perform
    have hkey := h key
    rw [Keystore.lookup_emplace, h k]
    split_ifs at hrest with hfound
    · cases hrest
      by_cases hk : k = key
      · subst hk
        obtain ⟨node, hnode⟩ := Option.isSome_iff_exists.mp hfound
        simp [hnode]
      · simp [hk]
    · have hmissing := Option.not_isSome_iff_eq_none.mp hfound
      obtain rfl : d' = (key, value) :: d₁ := hrest.of_perform
      by_cases hk : k = key
      · subst hk
        simp [hmissing]
      · simp [hk, Ne.symm hk]
  missing := by
    intro d d' keystore key h hexec
    obtain ⟨hnone, rfl⟩ := hexec.of_perform
    exact ⟨by rw [h key, ← hnone]; rfl, h⟩
  found := by
    intro d d₁ d₂ keystore key node value h hfind hsecond
    obtain ⟨hsome, rfl⟩ := hfind.of_perform
    obtain ⟨rfl, rfl⟩ := hsecond.of_perform
    exact ⟨by rw [h key, ← hsome]; rfl, h⟩

/-- A listener thread that is about to write a key, while another one is about to read it. -/
theorem runs_write_read : ∃ (d : StoreConfig Bool) (k : Unit → Sys ListenPc)
      (k' : Option Value → Sys ListenPc),
    (listeners samplePort).Runs (fun _ _ => True) (serverInit Bool) d ∧
    d.own true = .call (.emplace ⟨[107], by decide⟩ ⟨[1], by decide⟩) k ∧
    d.own false = .call (.find [107]) k' := by
  have hserve := @runs_serve _ _ samplePort _ _ true (.start (serverInit Bool)) rfl
  obtain ⟨k, -, hcommand⟩ := runs_command hserve (Config.set_own_self _ true _ _)
    (f := sampleWrite 107 1) rfl
  have hname : (sampleWrite 107 1).methodName = ascii "write" := rfl
  have hlen : WriteRequest.size ≤ (sampleWrite 107 1).data.length := show 8 ≤ 10 by decide
  have hparse : WriteRequest.parse (sampleWrite 107 1).data =
    some (⟨[107], by decide⟩, ⟨[1], by decide⟩) := rfl
  rw [processCommand_eq, hname, if_neg (by decide), if_pos rfl, handleRpcWrite_eq hlen, hparse]
    at hcommand
  have hserve' := runs_serve (t := false) hcommand rfl
  have hread := runs_read hserve' (Config.set_own_self _ false _ _) 107
  exact ⟨_, _, _, hread, rfl, Config.set_own_self _ false _ _⟩

/-- One thread is in its block, and the other one is about to begin its own. -/
theorem runs_inside : ∃ (c : LockedConfig Bool (List (Bytes × Value)) BucketOp BucketOp.Result)
      (k : Unit → Sys ListenPc) (k' : Option Value → Sys ListenPc)
      (b : Prog BucketOp BucketOp.Result Unit),
    (lockedListeners bucket samplePort).Runs
      (fun t c => ¬GrabsHeld t (bucket.blocks.lockView c)) (lockedInit Bool bucket) c ∧
    c.own true = .block (.emplace ⟨[107], by decide⟩ ⟨[1], by decide⟩) k .inside b ∧
    c.own false = .outside (.call (.find [107]) k') := by
  obtain ⟨d, k, k', hrun, hwrite, hread⟩ := runs_write_read
  obtain ⟨c, hlocked, hsettled⟩ := blocks_reach bucket_sequential bucket_total hrun
  have hidle (t : Bool) : ((c.own t).pc spinLock).holds = false := by
    rw [hsettled.own t]
    rfl
  have hown := hsettled.own true
  rw [hwrite] at hown
  have hok := not_grabsHeld_set (m := bucket) (t := true) fun u _ => hidle u
  have henter := hlocked.move true (s := c.shared) (by rw [hown]; exact .enter rfl)
    (by rw [← Config.set_own_eq c true]; exact hok _ _)
  obtain ⟨l, hacquire⟩ := @acquires_inside (.spin 0) c.shared.lock (.inr hsettled.free)
  have hinside := Blocks.runs_acquire (B := bucket.blocks) henter (Config.set_own_self _ _ _ _)
    (fun l s => by rw [Config.set_set]; exact hok l s) hacquire
  rw [Config.set_set] at hinside
  exact ⟨_, k, k', _, hinside, Config.set_own_self _ _ _ _,
    (Config.set_own_of_ne c Bool.false_ne_true _ _).trans (hread ▸ hsettled.own false)⟩

/-- One thread is in its block, and the other one waits for the lock, which it has found set. -/
theorem runs_contend : ∃ (c : LockedConfig Bool (List (Bytes × Value)) BucketOp BucketOp.Result)
      (k : Unit → Sys ListenPc) (k' : Option Value → Sys ListenPc)
      (b : Prog BucketOp BucketOp.Result Unit) (b' : Prog BucketOp BucketOp.Result (Option Value)),
    (lockedListeners bucket samplePort).Runs
      (fun t c => ¬GrabsHeld t (bucket.blocks.lockView c)) (lockedInit Bool bucket) c ∧
    c.own true = .block (.emplace ⟨[107], by decide⟩ ⟨[1], by decide⟩) k .inside b ∧
    c.own false = .block (.find [107]) k' (.spin 1) b' ∧ c.shared.lock.lock ≠ 0 := by
  obtain ⟨c, k, k', b, hrun, hin, hother⟩ := runs_inside
  have hlock : c.shared.lock.lock ≠ 0 :=
    (blocks_complete bucket_total hrun).1.mpr ⟨true, by rw [hin]; rfl⟩
  have henter := hrun.move false (s := c.shared) (by rw [hother]; exact .enter rfl)
    fun ⟨_, _, hpc, _⟩ => by cases (congrArg (Locked.pc spinLock) hother).symm.trans hpc
  have hbump := runs_spin henter (r := .bump 0) (l := c.shared.lock)
    (Config.set_own_self _ false _ _) nofun nofun (if_pos hlock).symm
  have hspin := runs_spin hbump (r := .spin 1) (l := c.shared.lock)
    (Config.set_own_self _ false _ _) nofun nofun rfl
  exact ⟨_, k, k', b, _, hspin, hin, Config.set_own_self _ false _ _, hlock⟩

/-- A thread writes a key while another one waits to read it.  When the first one has released the
lock, the threads have come to where they come in single steps. -/
theorem keystore_blocks_atomic_bucket :
    ∃ (c c' : LockedConfig Bool (List (Bytes × Value)) BucketOp BucketOp.Result)
      (d : StoreConfig Bool) (k : Unit → Sys ListenPc) (k' : Option Value → Sys ListenPc),
      (c.own true).pc spinLock = .inside ∧ (c.own false).pc spinLock = .spin 1 ∧
      c.shared.lock.lock ≠ 0 ∧
      (lockedListeners bucket samplePort).Runs
        (fun t c => ¬GrabsHeld t (bucket.blocks.lockView c)) c c' ∧
      c'.own true = .outside (k ()) ∧ (c'.own false).pc spinLock = .spin 1 ∧
      (listeners samplePort).Runs (fun _ _ => True) (serverInit Bool) d ∧
      d.own true = k () ∧ d.own false = .call (.find [107]) k' ∧
      bucketHolds c'.shared.data d.shared.keystore := by
  obtain ⟨c, k, k', b, b', hrun, hin, hwait, hlock⟩ := runs_contend
  obtain ⟨⟨⟩, s, hdone, -, -⟩ := finishes (.start c) bucket_total hin (.inl rfl) fun u hu => by
    cases u with
    | true => exact absurd rfl hu
    | false => rw [hwait]; rfl
  have hatomic := @keystore_blocks_atomic _ _ _ Bool _ _ bucket bucketHolds samplePort
    bucket_sequential bucket_total
  obtain ⟨d, hrun', hcode, hholds⟩ := hatomic.1 _ (hrun.trans hdone)
  have hother : (c.set true (.outside (k ())) s).own false = c.own false :=
    Config.set_own_of_ne c Bool.false_ne_true _ _
  rw [hwait] at hother
  refine ⟨c, _, d, k, k', by rw [hin]; rfl, by rw [hwait]; rfl, hlock, hdone,
    Config.set_own_self _ true _ _, by rw [hother]; rfl, hrun', ?_, ?_, hholds fun t => ?_⟩
  · rw [hcode, Config.set_own_self]
    rfl
  · rw [hcode, hother]
    rfl
  · cases t with
    | true => rw [Config.set_own_self]; nofun
    | false => rw [hother]; nofun

/-- A thread waits while another one is in its block, and may come to the end of its own. -/
theorem blocks_complete_bucket : ∃ (c c' : LockedConfig Bool (List (Bytes × Value)) BucketOp
      BucketOp.Result) (k : Option Value → Sys ListenPc) (r : Option Value),
    (c.own true).pc spinLock = .inside ∧ (c.own false).pc spinLock = .spin 1 ∧
    c.shared.lock.lock ≠ 0 ∧
    (lockedListeners bucket samplePort).Runs
      (fun t c => ¬GrabsHeld t (bucket.blocks.lockView c)) c c' ∧
    c'.own false = .outside (k r) := by
  obtain ⟨c, k, k', b, b', hrun, hin, hwait, hlock⟩ := runs_contend
  obtain ⟨r, c', hdone, hend⟩ := (blocks_complete bucket_total hrun).2 false _ _ _ _ hwait
  exact ⟨c, c', k', r, by rw [hin]; rfl, by rw [hwait]; rfl, hlock, hdone, hend⟩

end Bucket

end SoftwareDynamics.Network

import SoftwareDynamics.ProofKit.Threads

/-! Blocks that run under a lock.  Threads run processes some of whose operations are blocks: the
thread acquires a lock, accesses data that the threads share, one access at a time, and releases the
lock.  Where at most one thread is inside its block, the threads do as if each block were a single
step. -/

namespace SoftwareDynamics.ProofKit

open Prog

section Model

/-- A lock: the next step of a thread that acquires it, and the control points of a thread that has
not begun to do so, and of one that holds it and is in its block.  The step from `inside` releases
the lock. -/
structure Lock (Q K : Type) where
  step : Q × K → Q × K
  outside : Q
  inside : Q
  releases : ∀ k, (step (inside, k)).1 = outside
  outside_ne : outside ≠ inside

/-- Threads that do nothing but acquire and release the lock. -/
def Lock.threads {Q K : Type} (lock : Lock Q K) (T : Type) : Threads T (fun _ => Q) K :=
  ⟨fun _ c c' => c' = lock.step c⟩

/-- A thread's code in progress: outside of all blocks, or in one of them, with a control point of
the lock and the accesses that are still to come. -/
inductive Locked (Op : Type) (Res : Op → Type) (BOp : Type) (BRes : BOp → Type) (Q α : Type) : Type
  | outside (p : Prog Op Res α)
  | block (op : Op) (k : Res op → Prog Op Res α) (q : Q) (b : Prog BOp BRes (Res op))

/-- What the threads share: the data that the blocks access, the lock, and the rest. -/
structure Guarded (S D K : Type) where
  outer : S
  data : D
  lock : K

variable {Op : Type} {Res : Op → Type} {BOp : Type} {BRes : BOp → Type} {Q K S D T : Type}
variable {Pc : T → Type}

/-- The code of the thread as if its block were still to come. -/
def Locked.code {α : Type} : Locked Op Res BOp BRes Q α → Prog Op Res α
  | .outside p => p
  | .block op k _ _ => .call op k

/-- Where the thread is with respect to the lock. -/
def Locked.pc {α : Type} (lock : Lock Q K) : Locked Op Res BOp BRes Q α → Q
  | .outside _ => lock.outside
  | .block _ _ q _ => q

/-- Which operations are blocks, what else the operations do, what the accesses of the blocks do,
and the lock. -/
structure Blocks (Op : Type) (Res : Op → Type) (BOp : Type) (BRes : BOp → Type)
    (Q K S D : Type) where
  body : (op : Op) → Option (Prog BOp BRes (Res op))
  env : Env Op Res S
  access : Env BOp BRes D
  lock : Lock Q K

/-- One step of a thread. -/
inductive Blocks.Move {Pc : Type} (B : Blocks Op Res BOp BRes Q K S D) (P : Process Op Res Pc) :
    Locked Op Res BOp BRes Q Pc × Guarded S D K → Locked Op Res BOp BRes Q Pc × Guarded S D K → Prop
  | round {pc : Pc} {x : Guarded S D K} : P.halted pc = false →
      Move B P (.outside (.ret pc), x) (.outside (P.code pc), x)
  | call {op : Op} {k : Res op → Prog Op Res Pc} {r : Res op} {s s' : S} {d : D} {l : K} :
      B.body op = none → B.env.act s op r s' →
      Move B P (.outside (.call op k), ⟨s, d, l⟩) (.outside (k r), ⟨s', d, l⟩)
  | enter {op : Op} {k : Res op → Prog Op Res Pc} {b : Prog BOp BRes (Res op)} {s : S} {d : D}
      {l : K} : B.body op = some b →
      Move B P (.outside (.call op k), ⟨s, d, l⟩)
        (.block op k (B.lock.step (B.lock.outside, l)).1 b,
          ⟨s, d, (B.lock.step (B.lock.outside, l)).2⟩)
  | acquire {op : Op} {k : Res op → Prog Op Res Pc} {q : Q} {b : Prog BOp BRes (Res op)} {s : S}
      {d : D} {l : K} : q ≠ B.lock.inside →
      Move B P (.block op k q b, ⟨s, d, l⟩)
        (.block op k (B.lock.step (q, l)).1 b, ⟨s, d, (B.lock.step (q, l)).2⟩)
  | access {op : Op} {k : Res op → Prog Op Res Pc} {bop : BOp}
      {bk : BRes bop → Prog BOp BRes (Res op)} {r : BRes bop} {s : S} {d d' : D} {l : K} :
      B.access.act d bop r d' →
      Move B P (.block op k B.lock.inside (.call bop bk), ⟨s, d, l⟩)
        (.block op k B.lock.inside (bk r), ⟨s, d', l⟩)
  | release {op : Op} {k : Res op → Prog Op Res Pc} {r : Res op} {s : S} {d : D} {l : K} :
      Move B P (.block op k B.lock.inside (.ret r), ⟨s, d, l⟩)
        (.outside (k r), ⟨s, d, (B.lock.step (B.lock.inside, l)).2⟩)

/-- The threads, which take the lock for each block. -/
def Blocks.threads (B : Blocks Op Res BOp BRes Q K S D) (P : (t : T) → Process Op Res (Pc t)) :
    Threads T (fun t => Locked Op Res BOp BRes Q (Pc t)) (Guarded S D K) :=
  ⟨fun t => B.Move (P t)⟩

/-- The world in which each block is a single step. -/
def Blocks.atomic (B : Blocks Op Res BOp BRes Q K S D) : Env Op Res (S × D) where
  allows x op := B.env.allows x.1 op
  act x op r x' :=
    match B.body op with
    | some b => x'.1 = x.1 ∧ Exec B.access b x.2 r x'.2
    | none => B.env.act x.1 op r x'.1 ∧ x'.2 = x.2

/-- What the threads do to the lock. -/
def Blocks.lockView (B : Blocks Op Res BOp BRes Q K S D)
    (c : Config T (fun t => Locked Op Res BOp BRes Q (Pc t)) (Guarded S D K)) :
    Config T (fun _ => Q) K :=
  ⟨fun t => (c.own t).pc B.lock, c.shared.lock⟩

/-- At most one thread is inside its block. -/
def Lock.Alone (lock : Lock Q K) (c : Config T (fun _ => Q) K) : Prop :=
  ∀ t u, c.own t = lock.inside → c.own u = lock.inside → t = u

end Model

section Atomicity

variable {Op : Type} {Res : Op → Type} {BOp : Type} {BRes : BOp → Type} {Q K S D T : Type}
variable {Pc : T → Type} [DecidableEq T] {B : Blocks Op Res BOp BRes Q K S D}
variable {P : (t : T) → Process Op Res (Pc t)}
variable {c c₀ : Config T (fun t => Locked Op Res BOp BRes Q (Pc t)) (Guarded S D K)}
variable {d d₀ : Config T (fun t => Prog Op Res (Pc t)) (S × D)} {t : T}

theorem Blocks.lockView_set (l : Locked Op Res BOp BRes Q (Pc t)) (s : Guarded S D K) :
    B.lockView (c.set t l s) = (B.lockView c).set t (l.pc B.lock) s.lock := by
  have hown : (B.lockView (c.set t l s)).own = ((B.lockView c).set t (l.pc B.lock) s.lock).own := by
    funext u
    by_cases hu : u = t
    · subst hu
      simp [lockView]
    · simp [lockView, hu]
  exact congrArg (Config.mk · s.lock) hown

/-- Every run of the threads is a run of the lock. -/
theorem Blocks.runs_lock (ok : T → Config T (fun _ => Q) K → Prop)
    (hrun : (B.threads P).Runs (fun t c => ok t (B.lockView c)) c₀ c) :
    (B.lock.threads T).Runs ok (B.lockView c₀) (B.lockView c) := by
  induction hrun with
  | refl => exact .start _
  | @tail c _ _ hstep ih =>
    obtain ⟨t, ⟨l, s, hmove, rfl⟩, hok⟩ := hstep
    rw [lockView_set]
    have stays (hpc : l.pc B.lock = (c.own t).pc B.lock) (hlock : s.lock = c.shared.lock) :
        (B.lock.threads T).Runs ok (B.lockView c₀)
          ((B.lockView c).set t (l.pc B.lock) s.lock) := by
      rw [hpc, hlock]
      exact (Config.set_own_eq (B.lockView c) t).symm ▸ ih
    have moves (hlock : (l.pc B.lock, s.lock) = B.lock.step ((c.own t).pc B.lock, c.shared.lock)) :
        (B.lock.threads T).Runs ok (B.lockView c₀)
          ((B.lockView c).set t (l.pc B.lock) s.lock) := ih.move t hlock hok
    generalize hown : c.own t = own at hmove stays moves
    generalize hshared : c.shared = shared at hmove stays moves
    cases hmove with
    | round => exact stays rfl rfl
    | call => exact stays rfl rfl
    | enter => exact moves rfl
    | acquire => exact moves rfl
    | access => exact stays rfl rfl
    | release => exact moves (Prod.ext (B.lock.releases _).symm rfl)

/-- In `d`, where each block is a single step, the blocks in progress are still to come. -/
structure Blocks.Pending (B : Blocks Op Res BOp BRes Q K S D)
    (c : Config T (fun t => Locked Op Res BOp BRes Q (Pc t)) (Guarded S D K))
    (d : Config T (fun t => Prog Op Res (Pc t)) (S × D)) : Prop where
  own : ∀ t, d.own t = (c.own t).code
  outer : d.shared.1 = c.shared.outer
  data : (∀ t, (c.own t).pc B.lock ≠ B.lock.inside) → d.shared.2 = c.shared.data
  block : ∀ t op k q b, c.own t = .block op k q b → ∃ b₀, B.body op = some b₀ ∧
    (q ≠ B.lock.inside → b = b₀) ∧
    (q = B.lock.inside → ∀ r d', Exec B.access b c.shared.data r d' →
      Exec B.access b₀ d.shared.2 r d')

omit [DecidableEq T] in
theorem Blocks.Pending.init {p : (t : T) → Prog Op Res (Pc t)} {s : S} {x : D} {k : K} :
    B.Pending ⟨fun t => .outside (p t), ⟨s, x, k⟩⟩ ⟨p, (s, x)⟩ where
  own _ := rfl
  outer := rfl
  data _ := rfl
  block _ _ _ _ _ h := nomatch h

/-- A move of one thread keeps the others' blocks pending if it leaves the data alone that a thread
inside its block sees. -/
theorem Blocks.Pending.update (h : B.Pending c d) {l : Locked Op Res BOp BRes Q (Pc t)}
    {s : Guarded S D K} {x : S × D} (outer : x.1 = s.outer)
    (others : ∀ u, u ≠ t → (c.own u).pc B.lock = B.lock.inside →
      x.2 = d.shared.2 ∧ s.data = c.shared.data)
    (data : l.pc B.lock ≠ B.lock.inside →
      (∀ u, u ≠ t → (c.own u).pc B.lock ≠ B.lock.inside) → x.2 = s.data)
    (block : ∀ op k q b, l = .block op k q b → ∃ b₀, B.body op = some b₀ ∧
      (q ≠ B.lock.inside → b = b₀) ∧
      (q = B.lock.inside → ∀ r d', Exec B.access b s.data r d' → Exec B.access b₀ x.2 r d')) :
    B.Pending (c.set t l s) (d.set t l.code x) := by
  refine ⟨fun u => ?_, outer, fun hnone => ?_, fun u op k q b hu => ?_⟩
  · by_cases hut : u = t
    · subst hut
      simp
    · simpa [hut] using h.own u
  · refine data (by simpa using hnone t) fun u hut => ?_
    simpa [hut] using hnone u
  · by_cases hut : u = t
    · subst hut
      exact block op k q b (by simpa using hu)
    · rw [c.set_own_of_ne hut] at hu
      obtain ⟨b₀, hbody, hstart, hrest⟩ := h.block u op k q b hu
      refine ⟨b₀, hbody, hstart, fun hq => ?_⟩
      have hin : (c.own u).pc B.lock = B.lock.inside := by rw [hu]; exact hq
      obtain ⟨hx, hs⟩ := others u hut hin
      rw [Config.set_shared, Config.set_shared, hx, hs]
      exact hrest hq

/-- While at most one thread is inside its block, one step of the threads is one step, or none,
where each block is a single step. -/
theorem Blocks.Pending.step (h : B.Pending c d) {l : Locked Op Res BOp BRes Q (Pc t)}
    {s : Guarded S D K} (hmove : B.Move (P t) (c.own t, c.shared) (l, s))
    (alone : B.lock.Alone (B.lockView c)) (alone' : B.lock.Alone (B.lockView (c.set t l s))) :
    ∃ x, B.Pending (c.set t l s) (d.set t l.code x) ∧
      (d.set t l.code x = d ∨ (P t).Step B.atomic (d.own t, d.shared) (l.code, x)) := by
  have hcode := h.own t
  have hpending := h.block t
  have idle (hpc : (c.own t).pc B.lock ≠ B.lock.inside)
      (hothers : ∀ u, u ≠ t → (c.own u).pc B.lock ≠ B.lock.inside) :
      d.shared.2 = c.shared.data := by
    refine h.data fun u => ?_
    by_cases hut : u = t
    · exact hut ▸ hpc
    · exact hothers u hut
  have fresh (hpc : (c.own t).pc B.lock ≠ B.lock.inside) (hin : l.pc B.lock = B.lock.inside) :
      d.shared.2 = c.shared.data := idle hpc fun u hut hu =>
    hut (alone' u t (by simpa [lockView, hut] using hu) (by simpa [lockView] using hin))
  have only (hin : (c.own t).pc B.lock = B.lock.inside) (u : T) (hut : u ≠ t)
      (hu : (c.own u).pc B.lock = B.lock.inside) : False := hut (alone u t hu hin)
  have same : d.set t (c.own t).code d.shared = d := by rw [← hcode, Config.set_own_eq]
  have houter := h.outer
  generalize hown : c.own t = own at hmove hcode hpending idle fresh only same
  generalize hshared : c.shared = shared at hmove hcode hpending idle fresh houter
  cases hmove with
  | round hgo =>
    refine ⟨d.shared, h.update houter (fun _ _ _ => ⟨rfl, by rw [hshared]⟩)
      (fun _ => idle B.lock.outside_ne) (fun _ _ _ _ hl => nomatch hl), .inr ?_⟩
    rw [hcode]
    exact .round hgo
  | @call op k r s s' _ _ hbody hact =>
    refine ⟨(s', d.shared.2), h.update rfl (fun _ _ _ => ⟨rfl, by rw [hshared]⟩)
      (fun _ => idle B.lock.outside_ne) (fun _ _ _ _ hl => nomatch hl), .inr ?_⟩
    rw [hcode]
    refine .call ?_
    simp only [atomic, hbody]
    exact ⟨by rw [houter]; exact hact, trivial⟩
  | @enter op k b s _ _ hbody =>
    refine ⟨d.shared, h.update houter (fun _ _ _ => ⟨rfl, by rw [hshared]⟩)
      (fun _ => idle B.lock.outside_ne) (fun op' k' q' b' hl => ?_), .inl same⟩
    cases hl
    exact ⟨b, hbody, fun _ => rfl, fun hin r d' hexec => fresh B.lock.outside_ne hin ▸ hexec⟩
  | @acquire op k q b s _ _ hq =>
    refine ⟨d.shared, h.update houter (fun _ _ _ => ⟨rfl, by rw [hshared]⟩)
      (fun _ => idle hq) (fun op' k' q' b' hl => ?_), .inl same⟩
    cases hl
    obtain ⟨b₀, hbody, hstart, -⟩ := hpending op k q b rfl
    obtain rfl := hstart hq
    exact ⟨b, hbody, fun _ => rfl, fun hin r d' hexec => fresh hq hin ▸ hexec⟩
  | @access op k bop bk r s x x' _ hact =>
    obtain ⟨b₀, hbody, -, hrest⟩ := hpending op k B.lock.inside _ rfl
    refine ⟨d.shared, h.update houter (fun u hut hu => (only rfl u hut hu).elim)
      (fun hne => absurd rfl hne) (fun op' k' q' b' hl => ?_), .inl same⟩
    cases hl
    exact ⟨b₀, hbody, fun hne => absurd rfl hne,
      fun _ r d' hexec => hrest rfl r d' (.call hact hexec)⟩
  | @release op k r s x _ =>
    obtain ⟨b₀, hbody, -, hrest⟩ := hpending op k B.lock.inside _ rfl
    refine ⟨(s, x), h.update rfl (fun u hut hu => (only rfl u hut hu).elim) (fun _ _ => rfl)
      (fun _ _ _ _ hl => nomatch hl), .inr ?_⟩
    rw [hcode]
    refine .call ?_
    simp only [atomic, hbody]
    exact ⟨houter.symm, hrest rfl r x (.ret r x)⟩

/-- Every run in which at most one thread at a time is inside its block is a run in which each block
is a single step, up to the blocks in progress. -/
theorem Blocks.runs_atomic (ok : T → Config T (fun _ => Q) K → Prop)
    (hrun : (B.threads P).Runs (fun t c => ok t (B.lockView c)) c₀ c)
    (alone : ∀ v, (B.lock.threads T).Runs ok (B.lockView c₀) v → B.lock.Alone v)
    (h : B.Pending c₀ d₀) :
    ∃ d, (Threads.ofProcess P fun _ => B.atomic).Runs (fun _ _ => True) d₀ d ∧ B.Pending c d := by
  induction hrun with
  | refl => exact ⟨d₀, .start d₀, h⟩
  | @tail c _ hrun hstep ih =>
    have hnext := alone _ (B.runs_lock ok (hrun.tail hstep))
    obtain ⟨d, hd, hpending⟩ := ih
    obtain ⟨t, ⟨l, s, hmove, rfl⟩, -⟩ := hstep
    obtain ⟨x, hpending', hsame | hstep⟩ :=
      hpending.step hmove (alone _ (B.runs_lock ok hrun)) hnext
    · exact ⟨_, hsame.symm ▸ hd, hpending'⟩
    · exact ⟨_, hd.move t hstep trivial, hpending'⟩

end Atomicity

section Progress

variable {Op : Type} {Res : Op → Type} {BOp : Type} {BRes : BOp → Type} {Q K S D T : Type}
variable {Pc : T → Type} [DecidableEq T] {B : Blocks Op Res BOp BRes Q K S D}
variable {P : (t : T) → Process Op Res (Pc t)} {t : T}
variable {ok : T → Config T (fun t => Locked Op Res BOp BRes Q (Pc t)) (Guarded S D K) → Prop}
variable {c c₀ : Config T (fun t => Locked Op Res BOp BRes Q (Pc t)) (Guarded S D K)}

/-- While the others rest, a thread may take the steps of the lock up to its block. -/
theorem Blocks.runs_acquire (hrun : (B.threads P).Runs ok c₀ c) {op : Op}
    {k : Res op → Prog Op Res (Pc t)} {q q' : Q} {b : Prog BOp BRes (Res op)} {l : K}
    (hown : c.own t = .block op k q b)
    (hok : ∀ l s, ok t (c.set t l s))
    (h : Relation.ReflTransGen (fun x y => x.1 ≠ B.lock.inside ∧ y = B.lock.step x)
      (q, c.shared.lock) (q', l)) :
    (B.threads P).Runs ok c₀ (c.set t (.block op k q' b) { c.shared with lock := l }) := by
  generalize hend : (q', l) = x at h
  induction h generalizing q' l with
  | refl =>
    cases hend
    rw [← hown]
    exact (Config.set_own_eq c t).symm ▸ hrun
  | @tail x y _ hstep ih =>
    obtain ⟨hne, rfl⟩ := hstep
    obtain rfl : q' = (B.lock.step x).1 := congrArg Prod.fst hend
    obtain rfl : l = (B.lock.step x).2 := congrArg Prod.snd hend
    have hmove := (ih rfl).move t (l := .block op k (B.lock.step x).1 b)
      (s := { c.shared with lock := (B.lock.step x).2 })
      (by rw [Config.set_own_self]; exact .acquire hne) (hok _ _)
    rwa [Config.set_set] at hmove

/-- While the others rest, a thread may come to the end of its block, if all accesses return. -/
theorem Blocks.runs_leave (hrun : (B.threads P).Runs ok c₀ c) {op : Op}
    {k : Res op → Prog Op Res (Pc t)} {b : Prog BOp BRes (Res op)}
    (hown : c.own t = .block op k B.lock.inside b)
    (hok : ∀ b s, ok t (c.set t (.block op k B.lock.inside b) s))
    (total : ∀ d bop, ∃ r d', B.access.act d bop r d') :
    ∃ r d, Exec B.access b c.shared.data r d ∧ (B.threads P).Runs ok c₀ (c.set t (.outside (k r))
      ⟨c.shared.outer, d, (B.lock.step (B.lock.inside, c.shared.lock)).2⟩) := by
  have here : ok t c := by
    have hset := hok b c.shared
    rwa [← hown, Config.set_own_eq] at hset
  induction b generalizing c with
  | ret r =>
    exact ⟨r, c.shared.data, .ret _ _, hrun.move t (by rw [hown]; exact .release) here⟩
  | call bop bk ih =>
    obtain ⟨r, d, hact⟩ := total c.shared.data bop
    have hmove := hrun.move t (l := .block op k B.lock.inside (bk r))
      (s := { c.shared with data := d }) (by rw [hown]; exact .access hact) here
    obtain ⟨r', d', hexec, hleave⟩ := ih r hmove (Config.set_own_self _ _ _ _)
      (fun b s => by rw [Config.set_set]; exact hok b s) (hok _ _)
    rw [Config.set_set] at hleave
    exact ⟨r', d', .call hact hexec, hleave⟩

end Progress

end SoftwareDynamics.ProofKit

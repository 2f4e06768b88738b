import SoftwareDynamics.ProofKit.Env
import Mathlib.Logic.Function.Basic

/-! Threads over a shared state.  Each thread has a state of its own, and in each step of a run one
thread moves alone.  A run may be limited to steps that meet a condition. -/

namespace SoftwareDynamics.ProofKit

/-- The moves of the threads `T`, each from its own state and the shared state to the next ones. -/
structure Threads (T : Type) (L : T → Type) (S : Type) where
  move : (t : T) → L t × S → L t × S → Prop

/-- The states of all threads, and the shared state. -/
structure Config (T : Type) (L : T → Type) (S : Type) where
  own : (t : T) → L t
  shared : S

variable {T : Type} {L : T → Type} {S : Type} [DecidableEq T]

/-- The configuration after thread `t` has moved to `l` and left the shared state `s`. -/
def Config.set (c : Config T L S) (t : T) (l : L t) (s : S) : Config T L S :=
  ⟨Function.update c.own t l, s⟩

@[simp] theorem Config.set_own_self (c : Config T L S) (t : T) (l : L t) (s : S) :
    (c.set t l s).own t = l := by simp [Config.set]

@[simp] theorem Config.set_own_of_ne (c : Config T L S) {t u : T} (h : u ≠ t) (l : L t) (s : S) :
    (c.set t l s).own u = c.own u := by simp [Config.set, h]

@[simp] theorem Config.set_shared (c : Config T L S) (t : T) (l : L t) (s : S) :
    (c.set t l s).shared = s := rfl

theorem Config.set_own_eq (c : Config T L S) (t : T) : c.set t (c.own t) c.shared = c := by
  simp [Config.set]

theorem Config.set_set (c : Config T L S) (t : T) (l l' : L t) (s s' : S) :
    (c.set t l s).set t l' s' = c.set t l' s' := by
  simp [Config.set]

namespace Threads

/-- One move of thread `t`; all other threads stay where they are. -/
def Step (sys : Threads T L S) (t : T) (c c' : Config T L S) : Prop :=
  ∃ l s, sys.move t (c.own t, c.shared) (l, s) ∧ c' = c.set t l s

/-- The runs in which each step of a thread `t` starts in a configuration that meets `ok t`. -/
def Runs (sys : Threads T L S) (ok : T → Config T L S → Prop) :
    Config T L S → Config T L S → Prop :=
  Relation.ReflTransGen fun c c' => ∃ t, sys.Step t c c' ∧ ok t c

variable {sys : Threads T L S} {ok : T → Config T L S → Prop} {I : Config T L S → Prop}

theorem Runs.start (c : Config T L S) : sys.Runs ok c c := Relation.ReflTransGen.refl

/-- A run goes on with an allowed move of any thread. -/
theorem Runs.move {c c' : Config T L S} (hrun : sys.Runs ok c c') (t : T) {l : L t} {s : S}
    (h : sys.move t (c'.own t, c'.shared) (l, s)) (hok : ok t c') :
    sys.Runs ok c (c'.set t l s) :=
  Relation.ReflTransGen.tail hrun ⟨t, ⟨l, s, h, rfl⟩, hok⟩

/-- What every allowed move keeps holds throughout a run. -/
theorem Runs.invariant {c c' : Config T L S} (hrun : sys.Runs ok c c')
    (keep : ∀ t c l s, I c → ok t c → sys.move t (c.own t, c.shared) (l, s) →
      I (c.set t l s)) (h : I c) : I c' := by
  induction hrun with
  | refl => exact h
  | tail _ hstep ih =>
    obtain ⟨t, ⟨l, s, hmove, rfl⟩, hok⟩ := hstep
    exact keep t _ l s ih hok hmove

section Processes

variable {Op : Type} {Res : Op → Type} {Pc : T → Type}

/-- Threads that each run a process, in an environment of its own. -/
def ofProcess (P : (t : T) → Process Op Res (Pc t)) (env : T → Env Op Res S) :
    Threads T (fun t => Prog Op Res (Pc t)) S := ⟨fun t => (P t).Step (env t)⟩

variable {P : (t : T) → Process Op Res (Pc t)} {env : T → Env Op Res S}

/-- The step of a thread that is about to perform an operation. -/
theorem Step.of_call {c c' : Config T (fun t => Prog Op Res (Pc t)) S} {t : T} {op : Op}
    {k : Res op → Prog Op Res (Pc t)} (h : (ofProcess P env).Step t c c')
    (hown : c.own t = .call op k) :
    ∃ r s, (env t).act c.shared op r s ∧ c' = c.set t (k r) s := by
  obtain ⟨l, s, hmove, rfl⟩ := h
  rw [hown] at hmove
  cases hmove with
  | call hact => exact ⟨_, s, hact, rfl⟩

/-- While the others rest, a thread may pass through whatever its process may pass through. -/
theorem Runs.reach {ok : (t : T) → Config T (fun t => Prog Op Res (Pc t)) S → Prop}
    {c c' : Config T (fun t => Prog Op Res (Pc t)) S} (hrun : (ofProcess P env).Runs ok c c')
    {t : T} (hok : ∀ c, ok t c) {x : Prog Op Res (Pc t) × S}
    (h : (P t).Reach (env t) (c'.own t, c'.shared) x) :
    (ofProcess P env).Runs ok c (c'.set t x.1 x.2) := by
  induction h with
  | refl => rwa [Config.set_own_eq]
  | @tail x y _ hstep ih =>
    have hmove := ih.move t (l := y.1) (s := y.2) (by simpa [ofProcess] using hstep) (hok _)
    rwa [Config.set_set] at hmove

/-- A thread may go on from a control point. -/
theorem Runs.enter {ok : (t : T) → Config T (fun t => Prog Op Res (Pc t)) S → Prop}
    {c c' : Config T (fun t => Prog Op Res (Pc t)) S} (hrun : (ofProcess P env).Runs ok c c')
    {t : T} (hok : ∀ c, ok t c) {pc : Pc t} (hown : c'.own t = .ret pc)
    (hgo : (P t).halted pc = false) :
    (ofProcess P env).Runs ok c (c'.set t ((P t).code pc) c'.shared) :=
  hrun.reach hok (x := ((P t).code pc, c'.shared)) (hown ▸ Process.Reach.round hgo)

/-- While the others rest, a thread may execute the next part of its code. -/
theorem Runs.exec {ok : (t : T) → Config T (fun t => Prog Op Res (Pc t)) S → Prop}
    {c c' : Config T (fun t => Prog Op Res (Pc t)) S} (hrun : (ofProcess P env).Runs ok c c')
    {t : T} (hok : ∀ c, ok t c) {α : Type} {p : Prog Op Res α} {k : α → Prog Op Res (Pc t)} {a : α}
    {s : S} (hown : c'.own t = p >>= k) (h : Prog.Exec (env t) p c'.shared a s) :
    (ofProcess P env).Runs ok c (c'.set t (k a) s) :=
  hrun.reach hok (x := (k a, s)) (hown ▸ Process.Reach.of_exec h)

/-- While the others rest, a thread may execute a round of its code. -/
theorem Runs.round {ok : (t : T) → Config T (fun t => Prog Op Res (Pc t)) S → Prop}
    {c c' : Config T (fun t => Prog Op Res (Pc t)) S} (hrun : (ofProcess P env).Runs ok c c')
    {t : T} (hok : ∀ c, ok t c) {pc pc' : Pc t} {s : S} (hown : c'.own t = .ret pc)
    (hgo : (P t).halted pc = false) (h : Prog.Exec (env t) ((P t).code pc) c'.shared pc' s) :
    (ofProcess P env).Runs ok c (c'.set t (.ret pc') s) :=
  hrun.reach hok (x := (.ret pc', s)) (hown ▸ Process.Reach.of_round hgo h)

/-- A thread sees a part of the shared state, which the others leave alone.  Then what each round of
its code keeps, seen so, wherever a run may lead, holds at the end of its code in progress,
throughout a run. -/
theorem Runs.wp_view {V : Type} {ok : (t : T) → Config T (fun t => Prog Op Res (Pc t)) S → Prop}
    {c c' : Config T (fun t => Prog Op Res (Pc t)) S} (hrun : (ofProcess P env).Runs ok c c')
    (t : T) (view : S → V) {lenv : Env Op Res V} {J : Pc t → V → Prop}
    (own : ∀ c op k r s, ok t c → c.own t = .call op k → (env t).act c.shared op r s →
      lenv.act (view c.shared) op r (view s))
    (others : ∀ u, u ≠ t → ∀ c' op k r s, (ofProcess P env).Runs ok c c' → ok u c' →
      c'.own u = .call op k → (env u).act c'.shared op r s → view s = view c'.shared)
    (keep : ∀ c' pc, (ofProcess P env).Runs ok c c' → (P t).halted pc = false →
      J pc (view c'.shared) → Prog.wp lenv ((P t).code pc) J (view c'.shared))
    (h : Prog.wp lenv (c.own t) J (view c.shared)) :
    Prog.wp lenv (c'.own t) J (view c'.shared) := by
  induction hrun with
  | refl => exact h
  | @tail c' _ hrun hstep hwp =>
    obtain ⟨u, ⟨l, s, hmove, rfl⟩, hok⟩ := hstep
    by_cases hut : u = t
    · subst hut
      rw [Config.set_own_self, Config.set_shared]
      generalize hu : c'.own u = p at hmove hwp
      cases hmove with
      | call hact => exact hwp.2 _ _ (own c' _ _ _ _ hok hu hact)
      | round hgo => exact keep c' _ hrun hgo hwp
    · rw [Config.set_own_of_ne c' (Ne.symm hut), Config.set_shared]
      generalize hu : c'.own u = p at hmove
      cases hmove with
      | call hact => rwa [others u hut c' _ _ _ _ hrun hok hu hact]
      | round hgo => exact hwp

/-- Each thread sees a part of the shared state, which the others may change as `R` says.  What each
round of the code of each thread keeps, seen so, holds at the end of its code in progress,
throughout a run.  What a thread does may rely on what all of them have kept so far. -/
theorem Runs.wp_views {V : Type} {ok : (t : T) → Config T (fun t => Prog Op Res (Pc t)) S → Prop}
    {c c' : Config T (fun t => Prog Op Res (Pc t)) S} (hrun : (ofProcess P env).Runs ok c c')
    (view : T → S → V) {lenv : T → Env Op Res V} {J : (t : T) → Pc t → V → Prop}
    {R : T → V → V → Prop} (stable : ∀ t, (lenv t).Stable (R t))
    (stays : ∀ t pc v v', R t v v' → J t pc v → J t pc v')
    (own : ∀ c' t op k r s, (ofProcess P env).Runs ok c c' →
      (∀ u, Prog.wp (lenv u) (c'.own u) (J u) (view u c'.shared)) → c'.own t = .call op k →
      (env t).act c'.shared op r s → (lenv t).act (view t c'.shared) op r (view t s))
    (others : ∀ t u s op r s', u ≠ t → (env t).act s op r s' → R u (view u s) (view u s'))
    (keep : ∀ t pc v, (P t).halted pc = false → J t pc v →
      Prog.wp (lenv t) ((P t).code pc) (J t) v)
    (h : ∀ t, Prog.wp (lenv t) (c.own t) (J t) (view t c.shared)) (t : T) :
    Prog.wp (lenv t) (c'.own t) (J t) (view t c'.shared) := by
  induction hrun generalizing t with
  | refl => exact h t
  | @tail c' _ hrun hstep hwp =>
    obtain ⟨u, ⟨l, s, hmove, rfl⟩, -⟩ := hstep
    generalize hu : c'.own u = p at hmove
    by_cases htu : t = u
    · subst htu
      rw [Config.set_own_self, Config.set_shared]
      have ht := hwp t
      rw [hu] at ht
      cases hmove with
      | call hact => exact ht.2 _ _ (own c' t _ _ _ _ hrun hwp hu hact)
      | round hgo => exact keep t _ _ hgo ht
    · rw [Config.set_own_of_ne c' htu, Config.set_shared]
      cases hmove with
      | call hact =>
        exact (stable t).wp (fun pc v v' => stays t pc v v') (others u t _ _ _ _ htu hact) (hwp t)
      | round hgo => exact hwp t

/-- Where another world follows each step, the threads have the same runs in it, up to the relation
of the shared states. -/
theorem Runs.follow {X : Type} {ok : (t : T) → Config T (fun t => Prog Op Res (Pc t)) S → Prop}
    {c c' : Config T (fun t => Prog Op Res (Pc t)) S} (hrun : (ofProcess P env).Runs ok c c')
    (env' : T → Env Op Res X) (sim : S → X → Prop)
    (step : ∀ t s x op r s', sim s x → (env t).act s op r s' →
      ∃ x', (env' t).act x op r x' ∧ sim s' x') {x : X} (h : sim c.shared x) :
    ∃ x', (ofProcess P env').Runs (fun _ _ => True) ⟨c.own, x⟩ ⟨c'.own, x'⟩ ∧ sim c'.shared x' := by
  induction hrun with
  | refl => exact ⟨x, .start _, h⟩
  | @tail c' _ _ hstep ih =>
    obtain ⟨t, ⟨l, s, hmove, rfl⟩, -⟩ := hstep
    obtain ⟨y, hy, hsim⟩ := ih
    generalize hown : c'.own t = p at hmove
    cases hmove with
    | @call op k r _ _ hact =>
      obtain ⟨y', hact', hsim'⟩ := step t _ _ _ _ _ hsim hact
      refine ⟨y', hy.move t (l := k r) (s := y') ?_ trivial, hsim'⟩
      simp only [ofProcess, hown]
      exact .call hact'
    | @round pc _ hgo =>
      refine ⟨y, hy.move t (l := (P t).code pc) (s := y) ?_ trivial, hsim⟩
      simp only [ofProcess, hown]
      exact .round hgo

variable {X : Type} {mark : T → (op : Op) → Res op → X → X}
  {ok : (t : T) → Config T (fun t => Prog Op Res (Pc t)) S → Prop}

/-- Noting results does not change the runs. -/
theorem Runs.forget {ok : (t : T) → Config T (fun t => Prog Op Res (Pc t)) (S × X) → Prop}
    {c c' : Config T (fun t => Prog Op Res (Pc t)) (S × X)}
    (hrun : (ofProcess P fun t => (env t).ghost (mark t)).Runs ok c c') :
    (ofProcess P env).Runs (fun _ _ => True) ⟨c.own, c.shared.1⟩ ⟨c'.own, c'.shared.1⟩ := by
  obtain ⟨_, hrun', rfl⟩ := hrun.follow env (fun s x => s.1 = x)
    (fun t s x op r s' hs hact => ⟨s'.1, hs ▸ hact.1, rfl⟩) rfl
  exact hrun'

/-- The results of a run may be noted. -/
theorem Runs.note {c c' : Config T (fun t => Prog Op Res (Pc t)) S}
    (hrun : (ofProcess P env).Runs ok c c') (x : X) :
    ∃ x', (ofProcess P fun t => (env t).ghost (mark t)).Runs (fun _ _ => True)
      ⟨c.own, c.shared, x⟩ ⟨c'.own, c'.shared, x'⟩ := by
  obtain ⟨⟨_, x'⟩, hrun', rfl⟩ := hrun.follow (fun t => (env t).ghost (mark t))
    (fun s (y : S × X) => y.1 = s)
    (fun t s y op r s' hs hact => ⟨(s', mark t op r y.2), ⟨hs ▸ hact, rfl⟩, rfl⟩)
    (x := (c.shared, x)) rfl
  exact ⟨x', hrun'⟩

end Processes

end Threads

end SoftwareDynamics.ProofKit

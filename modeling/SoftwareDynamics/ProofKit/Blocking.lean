import SoftwareDynamics.ProofKit.Threads

/-! Processes that wait for one another.  A process whose rounds lower a measure goes on until it is
blocked.  A thread whose rounds lower a rank may always halt, if the others can go on until it is
not blocked any more. -/

namespace SoftwareDynamics.ProofKit

open Prog

variable {Op : Type} {Res : Op → Type}

namespace Process

section Blocking

variable {Pc σ : Type} {P : Process Op Res Pc} {env : Env Op Res σ} {p : Prog Op Res Pc} {s : σ}

/-- The process cannot go on by itself: it has halted, or the operation that it is about to perform
has no result yet. -/
def Blocked (P : Process Op Res Pc) (env : Env Op Res σ) (c : Prog Op Res Pc × σ) : Prop :=
  ∀ c', ¬P.Step env c c'

theorem Blocked.halted {pc : Pc} (h : P.Blocked env (.ret pc, s)) : P.halted pc = true := by
  by_contra hgo
  exact h _ (.round (by simpa using hgo))

theorem Blocked.not_act {op : Op} {k : Res op → Prog Op Res Pc} (h : P.Blocked env (.call op k, s))
    (r : Res op) (s' : σ) : ¬env.act s op r s' := fun hact => h _ (.call hact)

/-- The code in progress is executed to its end, or until the process is blocked. -/
theorem exists_blocked_or_ret {J : Pc → σ → Prop} (h : wp env p J s) :
    (∃ c, P.Reach env (p, s) c ∧ P.Blocked env c) ∨
      ∃ pc t, P.Reach env (p, s) (.ret pc, t) ∧ J pc t := by
  induction p generalizing s with
  | ret pc => exact .inr ⟨pc, s, .refl, h⟩
  | call op k ih =>
    by_cases hact : ∃ r t, env.act s op r t
    · obtain ⟨r, t, hact⟩ := hact
      have hstep : P.Step env (.call op k, s) (k r, t) := .call hact
      rcases ih r (h.2 r t hact) with ⟨c, hreach, hblocked⟩ | ⟨pc, t', hreach, hJ⟩
      · exact .inl ⟨c, .head hstep hreach, hblocked⟩
      · exact .inr ⟨pc, t', .head hstep hreach, hJ⟩
    · refine .inl ⟨_, .refl, fun c hstep => ?_⟩
      cases hstep with
      | call h => exact hact ⟨_, _, h⟩

/-- A process each round of which lowers a measure goes on until it is blocked. -/
theorem exists_blocked {J : Pc → σ → Prop} (measure : Pc → σ → Nat)
    (lower : ∀ pc s, P.halted pc = false → J pc s →
      wp env (P.code pc) (fun pc' s' => J pc' s' ∧ measure pc' s' < measure pc s) s)
    (h : wp env p J s) : ∃ c, P.Reach env (p, s) c ∧ P.Blocked env c := by
  have go (n : Nat) : ∀ pc s, measure pc s = n → J pc s →
      ∃ c, P.Reach env (.ret pc, s) c ∧ P.Blocked env c := by
    induction n using Nat.strongRecOn with
    | _ n ih =>
      intro pc s hn hJ
      cases hgo : P.halted pc with
      | true =>
        refine ⟨_, .refl, fun c hstep => ?_⟩
        cases hstep with
        | round h => simp [hgo] at h
      | false =>
        have hround : P.Reach env (.ret pc, s) (P.code pc, s) := .round hgo
        rcases exists_blocked_or_ret (P := P) (lower pc s hgo hJ) with
          ⟨c, hreach, hblocked⟩ | ⟨pc', s', hreach, hJ', hlt⟩
        · exact ⟨c, hround.trans hreach, hblocked⟩
        · obtain ⟨c, hrest, hblocked⟩ := ih _ (hn ▸ hlt) pc' s' rfl hJ'
          exact ⟨c, (hround.trans hreach).trans hrest, hblocked⟩
  rcases exists_blocked_or_ret (P := P) h with hblocked | ⟨pc, t, hreach, hJ⟩
  · exact hblocked
  · obtain ⟨c, hrest, hblocked⟩ := go _ pc t rfl hJ
    exact ⟨c, hreach.trans hrest, hblocked⟩

end Blocking

end Process

namespace Threads

section Halting

variable {T S : Type} [DecidableEq T] {Pc : T → Type} {P : (t : T) → Process Op Res (Pc t)}
  {env : T → Env Op Res S} {c₀ c : Config T (fun t => Prog Op Res (Pc t)) S} {t : T}

theorem Runs.trans {L : T → Type} {sys : Threads T L S} {ok : T → Config T L S → Prop}
    {c c' c'' : Config T L S} (h : sys.Runs ok c c') (h' : sys.Runs ok c' c'') :
    sys.Runs ok c c'' := Relation.ReflTransGen.trans h h'

/-- The others can go on until the operation that the thread is about to perform has a result. -/
def Helped (P : (t : T) → Process Op Res (Pc t)) (env : T → Env Op Res S) (t : T)
    (c : Config T (fun t => Prog Op Res (Pc t)) S) : Prop :=
  ∀ op k, c.own t = .call op k → ∃ c', (ofProcess P env).Runs (fun _ _ => True) c c' ∧
    c'.own t = c.own t ∧ ∃ r s, (env t).act c'.shared op r s

/-- A thread that is helped may execute the rest of its code in progress. -/
theorem Runs.exists_ret (helped : ∀ c, (ofProcess P env).Runs (fun _ _ => True) c₀ c →
    Helped P env t c) (hrun : (ofProcess P env).Runs (fun _ _ => True) c₀ c) :
    ∃ c' pc, (ofProcess P env).Runs (fun _ _ => True) c c' ∧ c'.own t = .ret pc ∧
      Returns (c.own t) pc := by
  generalize hown : c.own t = p
  induction p generalizing c with
  | ret pc => exact ⟨c, pc, .start c, hown, returns_ret_iff.mpr rfl⟩
  | call op k ih =>
    obtain ⟨c₁, hrun₁, hown₁, r, s, hact⟩ := helped c hrun op k hown
    have hmove : ((P t).Step (env t)) (c₁.own t, c₁.shared) (k r, s) := by
      rw [hown₁, hown]
      exact .call hact
    have hrun₂ := hrun₁.move t hmove trivial
    obtain ⟨c', pc, hrun', hret, hreturns⟩ := ih r (hrun.trans hrun₂)
      (Config.set_own_self c₁ t (k r) s)
    exact ⟨c', pc, hrun₂.trans hrun', hret,
      returns_call_iff.mpr ⟨r, hreturns⟩⟩

/-- A thread that is helped, and may lower a rank at each of its control points, may halt. -/
theorem Runs.exists_halted (rank : Pc t → Nat)
    (helped : ∀ c, (ofProcess P env).Runs (fun _ _ => True) c₀ c → Helped P env t c)
    (lower : ∀ c pc, (ofProcess P env).Runs (fun _ _ => True) c₀ c → c.own t = .ret pc →
      (P t).halted pc = false → ∃ c' pc', (ofProcess P env).Runs (fun _ _ => True) c c' ∧
        c'.own t = .ret pc' ∧ rank pc' < rank pc)
    (hrun : (ofProcess P env).Runs (fun _ _ => True) c₀ c) :
    ∃ c' pc, (ofProcess P env).Runs (fun _ _ => True) c c' ∧ c'.own t = .ret pc ∧
      (P t).halted pc = true := by
  have go (n : Nat) : ∀ c pc, (ofProcess P env).Runs (fun _ _ => True) c₀ c → c.own t = .ret pc →
      rank pc = n → ∃ c' pc, (ofProcess P env).Runs (fun _ _ => True) c c' ∧ c'.own t = .ret pc ∧
        (P t).halted pc = true := by
    induction n using Nat.strongRecOn with
    | _ n ih =>
      intro c pc hrun hown hn
      cases hgo : (P t).halted pc with
      | true => exact ⟨c, pc, .start c, hown, hgo⟩
      | false =>
        obtain ⟨c₁, pc₁, hrun₁, hown₁, hlt⟩ := lower c pc hrun hown hgo
        obtain ⟨c', pc', hrun', hhalted⟩ := ih _ (hn ▸ hlt) c₁ pc₁
          (hrun.trans hrun₁) hown₁ rfl
        exact ⟨c', pc', hrun₁.trans hrun', hhalted⟩
  obtain ⟨c₁, pc, hrun₁, hown, -⟩ := hrun.exists_ret helped
  obtain ⟨c', pc', hrun', hhalted⟩ := go _ c₁ pc (hrun.trans hrun₁) hown rfl
  exact ⟨c', pc', hrun₁.trans hrun', hhalted⟩

end Halting

end Threads

end SoftwareDynamics.ProofKit

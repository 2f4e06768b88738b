import SoftwareDynamics.ProofKit.Prog

/-! Processes: code that runs from control point to control point.  The code from a control point
to the next one is a program, which always ends; a process goes on until it halts, and may never
do so. -/

namespace SoftwareDynamics.ProofKit

/-- The code that runs from each control point to the next one, and the control points at which
the process halts. -/
structure Process (Op : Type) (Res : Op → Type) (Pc : Type) where
  code : Pc → Prog Op Res Pc
  halted : Pc → Bool

namespace Process

open Prog

variable {Op : Type} {Res : Op → Type} {σ Pc : Type}

/-- A complete run: from one control point, through rounds of code, to a control point at which
the process halts. -/
inductive Run (P : Process Op Res Pc) (env : Env Op Res σ) : Pc → σ → Pc → σ → Prop
  | halt {pc : Pc} {s : σ} : P.halted pc = true → Run P env pc s pc s
  | round {pc pc' last : Pc} {s s' t : σ} : P.halted pc = false →
      Exec env (P.code pc) s pc' s' → Run P env pc' s' last t → Run P env pc s last t

/-- `n` rounds of code, none of which starts where the process halts. -/
inductive Rounds (P : Process Op Res Pc) (env : Env Op Res σ) : Nat → Pc → σ → Pc → σ → Prop
  | zero {pc : Pc} {s : σ} : Rounds P env 0 pc s pc s
  | succ {n : Nat} {pc pc' last : Pc} {s s' t : σ} : P.halted pc = false →
      Exec env (P.code pc) s pc' s' → Rounds P env n pc' s' last t →
      Rounds P env (n + 1) pc s last t

/-- Whatever the operations' results, the process halts within `n` rounds, where `Q` holds. -/
def Within (P : Process Op Res Pc) (env : Env Op Res σ) (Q : Pc → σ → Prop) :
    Nat → Pc → σ → Prop
  | 0, pc, s => P.halted pc = true ∧ Q pc s
  | n + 1, pc, s => if P.halted pc then Q pc s else wp env (P.code pc) (Within P env Q n) s

variable {P : Process Op Res Pc} {env : Env Op Res σ} {Q : Pc → σ → Prop}

theorem Within.of_halted {n : Nat} {pc : Pc} {s : σ} (h : P.halted pc = true) (hQ : Q pc s) :
    P.Within env Q n pc s := by
  cases n with
  | zero => exact ⟨h, hQ⟩
  | succ n => simpa [Within, h] using hQ

theorem Within.of_round {n : Nat} {pc : Pc} {s : σ} (h : P.halted pc = false)
    (hwp : wp env (P.code pc) (P.Within env Q n) s) : P.Within env Q (n + 1) pc s := by
  simpa [Within, h] using hwp

theorem Within.round_wp {n : Nat} {pc : Pc} {s : σ} (h : P.Within env Q (n + 1) pc s)
    (hgo : P.halted pc = false) : wp env (P.code pc) (P.Within env Q n) s := by
  simpa [Within, hgo] using h

theorem Within.mono {R : Pc → σ → Prop} {n : Nat} {pc : Pc} {s : σ} (h : P.Within env Q n pc s)
    (hQR : ∀ pc s, Q pc s → R pc s) : P.Within env R n pc s := by
  induction n generalizing pc s with
  | zero => exact ⟨h.1, hQR pc s h.2⟩
  | succ n ih =>
    cases hgo : P.halted pc with
    | true => exact .of_halted hgo (hQR pc s (by simpa [Within, hgo] using h))
    | false => exact .of_round hgo (wp_mono (h.round_wp hgo) fun _ _ => ih)

theorem Run.of_within {n : Nat} {pc last : Pc} {s t : σ} (hrun : P.Run env pc s last t)
    (h : P.Within env Q n pc s) : Q last t := by
  induction hrun generalizing n with
  | halt hhalt =>
    cases n with
    | zero => exact h.2
    | succ n => simpa [Within, hhalt] using h
  | round hgo hexec _ ih =>
    cases n with
    | zero => exact absurd h.1 (by simp [hgo])
    | succ n => exact ih (hexec.of_wp (h.round_wp hgo))

theorem Within.exists_run (total : env.Total) {n : Nat} {pc : Pc} {s : σ}
    (h : P.Within env Q n pc s) : ∃ last t, P.Run env pc s last t := by
  induction n generalizing pc s with
  | zero => exact ⟨pc, s, .halt h.1⟩
  | succ n ih =>
    cases hgo : P.halted pc with
    | true => exact ⟨pc, s, .halt hgo⟩
    | false =>
      obtain ⟨pc', s', hexec, hrest⟩ := (h.round_wp hgo).exists_exec total
      obtain ⟨last, t, hrun⟩ := ih hrest
      exact ⟨last, t, .round hgo hexec hrun⟩

/-- A process that halts within `n` rounds has no run of more than `n` rounds. -/
theorem Within.rounds_le {n m : Nat} {pc last : Pc} {s t : σ} (h : P.Within env Q n pc s)
    (hrounds : P.Rounds env m pc s last t) : m ≤ n := by
  induction hrounds generalizing n with
  | zero => exact Nat.zero_le n
  | succ hgo hexec _ ih =>
    cases n with
    | zero => exact absurd h.1 (by simp [hgo])
    | succ n => exact Nat.succ_le_succ (ih (hexec.of_wp (h.round_wp hgo)))

/-- One operation, or the passage from a control point to its code. -/
inductive Step (P : Process Op Res Pc) (env : Env Op Res σ) :
    Prog Op Res Pc × σ → Prog Op Res Pc × σ → Prop
  | call {op : Op} {k : Res op → Prog Op Res Pc} {r : Res op} {s s' : σ} :
      env.act s op r s' → Step P env (.call op k, s) (k r, s')
  | round {pc : Pc} {s : σ} : P.halted pc = false → Step P env (.ret pc, s) (P.code pc, s)

/-- The configurations that a process may pass through. -/
abbrev Reach (P : Process Op Res Pc) (env : Env Op Res σ) :
    Prog Op Res Pc × σ → Prog Op Res Pc × σ → Prop :=
  Relation.ReflTransGen (Step P env)

theorem Reach.round {pc : Pc} {s : σ} (h : P.halted pc = false) :
    P.Reach env (.ret pc, s) (P.code pc, s) := .single (.round h)

/-- A process may pass through a part of its code as that part may be executed. -/
theorem Reach.of_exec {α : Type} {p : Prog Op Res α} {k : α → Prog Op Res Pc} {s t : σ} {a : α}
    (h : Exec env p s a t) : P.Reach env (p >>= k, s) (k a, t) := by
  induction h with
  | ret => exact .refl
  | call hact _ ih => exact .head (.call hact) ih

/-- A process may pass from a control point to any one at which an execution of its code ends. -/
theorem Reach.of_round {pc pc' : Pc} {s t : σ} (hgo : P.halted pc = false)
    (h : Exec env (P.code pc) s pc' t) : P.Reach env (.ret pc, s) (.ret pc', t) := by
  have hcode : P.Reach env (P.code pc >>= .ret, s) (.ret pc', t) := .of_exec h
  rw [bind_ret] at hcode
  exact (Reach.round hgo).trans hcode

/-- A process passes through the images of its configurations where `env'` has the images of the
steps of `env`. -/
theorem Reach.map {τ : Type} {env' : Env Op Res τ} (f : σ → τ)
    (hact : ∀ s op r s', env.act s op r s' → env'.act (f s) op r (f s'))
    {c c' : Prog Op Res Pc × σ} (h : P.Reach env c c') :
    P.Reach env' (c.1, f c.2) (c'.1, f c'.2) := by
  induction h with
  | refl => exact .refl
  | tail _ hstep ih =>
    cases hstep with
    | call hr => exact ih.tail (.call (hact _ _ _ _ hr))
    | round hgo => exact ih.tail (.round hgo)

/-- A property of control points that each round keeps holds at the end of the code in progress,
in every configuration reached. -/
theorem Reach.wp_of_invariant {J : Pc → σ → Prop}
    (keep : ∀ pc s, P.halted pc = false → J pc s → wp env (P.code pc) J s)
    {c c' : Prog Op Res Pc × σ} (hreach : P.Reach env c c') (h : wp env c.1 J c.2) :
    wp env c'.1 J c'.2 := by
  induction hreach with
  | refl => exact h
  | tail _ hstep ih =>
    cases hstep with
    | call hact => exact ih.2 _ _ hact
    | round hgo => exact keep _ _ hgo ih

/-- A property of states that holds wherever an operation is allowed, and at every control point,
holds in every configuration reached. -/
theorem Reach.invariant {J : Pc → σ → Prop} {I : σ → Prop}
    (keep : ∀ pc s, P.halted pc = false → J pc s → wp env (P.code pc) J s)
    (atOp : ∀ s op, env.allows s op → I s) (atPc : ∀ pc s, J pc s → I s)
    {c c' : Prog Op Res Pc × σ} (hreach : P.Reach env c c') (h : wp env c.1 J c.2) : I c'.2 := by
  have hwp := hreach.wp_of_invariant keep h
  obtain ⟨p, s⟩ := c'
  cases p with
  | ret pc => exact atPc pc s hwp
  | call op k => exact atOp s op hwp.1

end Process

end SoftwareDynamics.ProofKit

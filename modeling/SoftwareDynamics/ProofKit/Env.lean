import SoftwareDynamics.ProofKit.Process

/-! Reasoning about environments: programs that keep to some operations, environments that watch
an invariant, that others may change, and that simulate or follow one another. -/

namespace SoftwareDynamics.ProofKit

variable {Op : Type} {Res : Op → Type} {σ τ α β : Type}

section Only

namespace Prog

/-- Whatever their results, all operations that the program performs satisfy `P`. -/
def Only (P : Op → Prop) : Prog Op Res α → Prop
  | .ret _ => True
  | .call op k => P op ∧ ∀ r, (k r).Only P

variable {P : Op → Prop} {p : Prog Op Res α}

theorem only_pure (a : α) : (pure a : Prog Op Res α).Only P := trivial

theorem only_perform {op : Op} (h : P op) : (perform op : Prog Op Res (Res op)).Only P :=
  ⟨h, fun _ => trivial⟩

theorem Only.bind (hp : p.Only P) {f : α → Prog Op Res β} (hf : ∀ a, (f a).Only P) :
    (p >>= f).Only P := by
  induction p with
  | ret a => exact hf a
  | call op k ih => exact ⟨hp.1, fun r => ih r (hp.2 r)⟩

theorem Only.map (hp : p.Only P) (f : α → β) : (f <$> p).Only P := by
  rw [map_eq_pure_bind]
  exact hp.bind fun a => only_pure (f a)

theorem Only.mono (hp : p.Only P) {R : Op → Prop} (h : ∀ op, P op → R op) : p.Only R := by
  induction p with
  | ret a => trivial
  | call op k ih => exact ⟨h op hp.1, fun r => ih r (hp.2 r)⟩

theorem only_true (p : Prog Op Res α) : p.Only fun _ => True := by
  induction p with
  | ret a => trivial
  | call op k ih => exact ⟨trivial, ih⟩

/-- A property of states that is kept by all operations of a program is kept by the program. -/
theorem Only.wp (hp : p.Only P) {env : Env Op Res σ} {J : σ → Prop}
    (keep : ∀ s op, P op → J s → env.allows s op ∧ ∀ r s', env.act s op r s' → J s') {s : σ}
    (hs : J s) : wp env p (fun _ => J) s := by
  induction p generalizing s with
  | ret a => exact hs
  | call op k ih =>
    obtain ⟨hallows, hact⟩ := keep s op hp.1 hs
    exact ⟨hallows, fun r s' hr => ih r (hp.2 r) (hact r s' hr)⟩

end Prog

end Only

namespace Env

open Prog

section Watch

/-- The environment, where an operation is allowed only while `I` holds. -/
def watch (env : Env Op Res σ) (I : σ → Prop) : Env Op Res σ where
  allows s op := I s ∧ env.allows s op
  act := env.act

variable {env : Env Op Res σ} {I : σ → Prop} {p : Prog Op Res α} {Q : α → σ → Prop} {s : σ}

theorem watch_holds (h : wp (env.watch I) p Q s) (hQ : ∀ a s, Q a s → I s) : I s := by
  cases p with
  | ret a => exact hQ a s h
  | call op k => exact h.1.1

theorem wp_of_watch (h : wp (env.watch I) p Q s) : wp env p Q s := by
  induction p generalizing s with
  | ret a => exact h
  | call op k ih => exact ⟨h.1.2, fun r s' hr => ih r (h.2 r s' hr)⟩

/-- Watching does not change what a process may pass through. -/
theorem reach_watch {Pc : Type} {P : Process Op Res Pc} {c c' : Prog Op Res Pc × σ}
    (h : P.Reach env c c') : P.Reach (env.watch I) c c' := by
  induction h with
  | refl => exact .refl
  | tail _ hstep ih =>
    cases hstep with
    | call hact => exact ih.tail (.call hact)
    | round hgo => exact ih.tail (.round hgo)

end Watch

section Guard

/-- The environment, where an operation is allowed only while `A` holds of it. -/
def guard (env : Env Op Res σ) (A : σ → Op → Prop) : Env Op Res σ where
  allows s op := A s op ∧ env.allows s op
  act := env.act

variable {env : Env Op Res σ} {A : σ → Op → Prop} {p : Prog Op Res α} {Q : α → σ → Prop} {s : σ}

/-- What is guarded and what holds at the end may be shown one after the other. -/
theorem wp_guard (h : wp env p Q s) (hA : wp (env.guard A) p (fun _ _ => True) s) :
    wp (env.guard A) p Q s := by
  induction p generalizing s with
  | ret a => exact h
  | call op k ih => exact ⟨⟨hA.1.1, h.1⟩, fun r s' hr => ih r (h.2 r s' hr) (hA.2 r s' hr)⟩

/-- A program is guarded whose operations all satisfy the guard. -/
theorem wp_guard_of_only (hp : p.Only fun op => ∀ s, A s op) (h : wp env p Q s) :
    wp (env.guard A) p Q s := by
  induction p generalizing s with
  | ret a => exact h
  | call op k ih => exact ⟨⟨hp.1 s, h.1⟩, fun r s' hr => ih r (hp.2 r) (h.2 r s' hr)⟩

/-- Only the first part of a program needs its guard. -/
theorem wp_guard_bind {f : α → Prog Op Res β} {Q : β → σ → Prop} (h : wp env (p >>= f) Q s)
    (hp : wp (env.guard A) p (fun _ _ => True) s)
    (hf : ∀ a, (f a).Only fun op => ∀ s, A s op) : wp (env.guard A) (p >>= f) Q s := by
  rw [wp_bind] at h ⊢
  exact wp_guard (wp_mono h fun a s' ha => wp_guard_of_only (hf a) ha) hp

end Guard

section Ghost

/-- The environment with a ghost state behind its own, in which each operation notes its result. -/
def ghost (env : Env Op Res σ) (note : (op : Op) → Res op → τ → τ) : Env Op Res (σ × τ) where
  allows s op := env.allows s.1 op
  act s op r s' := env.act s.1 op r s'.1 ∧ s'.2 = note op r s.2

variable {env : Env Op Res σ} {note : (op : Op) → Res op → τ → τ} {p : Prog Op Res α} {s : σ}

theorem ghost_total (total : env.Total) : (env.ghost note).Total := by
  rintro ⟨s, t⟩ op hallows
  obtain ⟨r, s', hact⟩ := total s op hallows
  exact ⟨r, (s', note op r t), hact, rfl⟩

/-- A program whose operations note nothing does as it does without the ghost. -/
theorem wp_ghost {Q : α → σ → Prop} (hp : p.Only fun op => ∀ r t, note op r t = t)
    (h : wp env p Q s) (t : τ) : wp (env.ghost note) p (fun a x => Q a x.1 ∧ x.2 = t) (s, t) := by
  induction p generalizing s with
  | ret a => exact ⟨h, rfl⟩
  | call op k ih =>
    refine ⟨h.1, ?_⟩
    rintro r ⟨s', t'⟩ ⟨hact, ht⟩
    have hsame : t' = t := ht.trans (hp.1 r t)
    rw [hsame]
    exact ih r (hp.2 r) (h.2 r s' hact)

/-- What is watched of a program whose operations note nothing is watched where the ghost stays. -/
theorem wp_watch_ghost {I : σ × τ → Prop} {Q : α → σ → Prop} {t : τ}
    (hp : p.Only fun op => ∀ r t, note op r t = t) (h : wp (env.watch fun s => I (s, t)) p Q s) :
    wp ((env.ghost note).watch I) p (fun a x => Q a x.1 ∧ x.2 = t) (s, t) := by
  induction p generalizing s with
  | ret a => exact ⟨h, rfl⟩
  | call op k ih =>
    refine ⟨h.1, ?_⟩
    rintro r ⟨s', t'⟩ ⟨hact, ht⟩
    have hsame : t' = t := ht.trans (hp.1 r t)
    rw [hsame]
    exact ih r (hp.2 r) (h.2 r s' hact)

end Ghost

section Stable

/-- The environment does not mind changes of its state that others make, as long as `R` says that
they may. -/
structure Stable (env : Env Op Res σ) (R : σ → σ → Prop) : Prop where
  allows : ∀ s s' op, R s s' → env.allows s op → env.allows s' op
  act : ∀ s s' op r t, R s s' → env.act s' op r t → env.act s op r t

theorem Stable.wp {env : Env Op Res σ} {R : σ → σ → Prop} (h : env.Stable R) {p : Prog Op Res α}
    {Q : α → σ → Prop} (hQ : ∀ a s s', R s s' → Q a s → Q a s') {s s' : σ} (hR : R s s')
    (hwp : Prog.wp env p Q s) : Prog.wp env p Q s' := by
  cases p with
  | ret a => exact hQ a s s' hR hwp
  | call op k =>
    exact ⟨h.allows s s' op hR hwp.1, fun r t hact => hwp.2 r t (h.act s s' op r t hR hact)⟩

end Stable

section Simulation

/-- From related states, `env` allows every operation that `abs` allows, and `abs` follows every
step of it. -/
def Simulates (abs : Env Op Res τ) (env : Env Op Res σ) (sim : τ → σ → Prop) : Prop :=
  ∀ t s op, sim t s → abs.allows t op →
    env.allows s op ∧ ∀ r s', env.act s op r s' → ∃ t', abs.act t op r t' ∧ sim t' s'

/-- What a program does in `abs`, it does in `env`, up to the relation of their states. -/
theorem Simulates.wp {abs : Env Op Res τ} {env : Env Op Res σ} {sim : τ → σ → Prop}
    (h : abs.Simulates env sim) {p : Prog Op Res α} {Q : α → τ → Prop} {t : τ} {s : σ}
    (hwp : wp abs p Q t) (hs : sim t s) : wp env p (fun a s' => ∃ t', sim t' s' ∧ Q a t') s := by
  induction p generalizing t s with
  | ret a => exact ⟨t, hs, hwp⟩
  | call op k ih =>
    obtain ⟨hallows, hact⟩ := h t s op hs hwp.1
    refine ⟨hallows, fun r s' hr => ?_⟩
    obtain ⟨t', ht, hs'⟩ := hact r s' hr
    exact ih r (hwp.2 r t' ht) hs'

/-- Both sides may note what is related. -/
theorem Simulates.ghost {υ ω : Type} {abs : Env Op Res τ} {env : Env Op Res σ} {sim : τ → σ → Prop}
    (h : abs.Simulates env sim) {note : (op : Op) → Res op → υ → υ}
    {note' : (op : Op) → Res op → ω → ω} {noted : υ → ω → Prop}
    (hnote : ∀ t op r u w, abs.allows t op → noted u w → noted (note op r u) (note' op r w)) :
    (abs.ghost note).Simulates (env.ghost note') fun x y => sim x.1 y.1 ∧ noted x.2 y.2 := by
  rintro ⟨t, u⟩ ⟨s, w⟩ op ⟨hs, hnoted⟩ hallows
  obtain ⟨hallows', hact⟩ := h t s op hs hallows
  refine ⟨hallows', ?_⟩
  rintro r ⟨s', w'⟩ ⟨hr, rfl⟩
  obtain ⟨t', ht, hs'⟩ := hact r s' hr
  exact ⟨(t', note op r u), ⟨ht, rfl⟩, hs', hnote t op r u w hallows hnoted⟩

/-- Both sides may watch what is related. -/
theorem Simulates.watch {abs : Env Op Res τ} {env : Env Op Res σ} {sim : τ → σ → Prop}
    (h : abs.Simulates env sim) {I : τ → Prop} {J : σ → Prop} (hJ : ∀ t s, sim t s → I t → J s) :
    (abs.watch I).Simulates (env.watch J) sim := by
  rintro t s op hs ⟨hI, hallows⟩
  obtain ⟨hallows', hact⟩ := h t s op hs hallows
  exact ⟨⟨hJ t s hs hI, hallows'⟩, hact⟩

theorem Simulates.of_watch {abs : Env Op Res τ} {env : Env Op Res σ} {sim : τ → σ → Prop}
    {I : τ → Prop} {J : σ → Prop} (h : (abs.watch I).Simulates (env.watch J) sim) (hI : ∀ t, I t) :
    abs.Simulates env sim := by
  intro t s op hs hallows
  obtain ⟨hallows', hact⟩ := h t s op hs ⟨hI t, hallows⟩
  exact ⟨hallows'.2, hact⟩

/-- From related states, `env` can follow every allowed step of `abs` that ends where `ok` holds. -/
structure Follows (abs : Env Op Res τ) (env : Env Op Res σ) (sim : τ → σ → Prop) (ok : τ → Prop) :
    Prop where
  back : ∀ t op r t', abs.act t op r t' → ok t' → ok t
  step : ∀ t s op r t', sim t s → abs.allows t op → abs.act t op r t' → ok t' →
    ∃ s', env.act s op r s' ∧ sim t' s'

/-- A program that always ends in `abs` where `ok` holds has an execution in `env`. -/
theorem Follows.exists_exec {abs : Env Op Res τ} {env : Env Op Res σ} {sim : τ → σ → Prop}
    {ok : τ → Prop} (h : abs.Follows env sim ok) (total : abs.Total) {p : Prog Op Res α}
    {Q : α → τ → Prop} {t : τ} (hwp : wp abs p Q t) (hok : ∀ a t, Q a t → ok t) {s : σ}
    (hs : sim t s) : ∃ a t' s', Exec env p s a s' ∧ sim t' s' ∧ Q a t' := by
  -- Only the end of the execution tells that `ok` holds at its start.
  suffices hfollow : ok t ∧ ∃ a t', Q a t' ∧ ∀ s, sim t s → ∃ s', Exec env p s a s' ∧ sim t' s' by
    obtain ⟨-, a, t', hQ, hexec⟩ := hfollow
    obtain ⟨s', hexec, hs'⟩ := hexec s hs
    exact ⟨a, t', s', hexec, hs', hQ⟩
  clear hs s
  induction p generalizing t with
  | ret a => exact ⟨hok a t hwp, a, t, hwp, fun s hs => ⟨s, .ret a s, hs⟩⟩
  | call op k ih =>
    obtain ⟨r, t₁, hact⟩ := total t op hwp.1
    obtain ⟨hok₁, a, t', hQ, hexec⟩ := ih r (hwp.2 r t₁ hact)
    refine ⟨h.back _ _ _ _ hact hok₁, a, t', hQ, fun s hs => ?_⟩
    obtain ⟨s₁, hact, hs₁⟩ := h.step _ s _ _ _ hs hwp.1 hact hok₁
    obtain ⟨s', hexec, hs'⟩ := hexec s₁ hs₁
    exact ⟨s', .call hact hexec, hs'⟩

end Simulation

end Env

end SoftwareDynamics.ProofKit

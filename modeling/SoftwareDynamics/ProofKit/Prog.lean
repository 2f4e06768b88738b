import Mathlib.Logic.Relation

/-! Interaction programs.  A program performs operations one at a time and continues with their
results.  An environment says which operations a program may perform in a state, and which results
and next states an operation may have there.  `wp` is the weakest precondition over all of them,
and `Exec` is one complete execution. -/

namespace SoftwareDynamics.ProofKit

/-- A program over the operations `Op`, whose results have the types `Res`. -/
inductive Prog (Op : Type) (Res : Op → Type) (α : Type) : Type
  | ret (a : α) : Prog Op Res α
  | call (op : Op) (k : Res op → Prog Op Res α) : Prog Op Res α

/-- What surrounds a program: the operations it may perform in a state, and the results and next
states that an operation may have. -/
structure Env (Op : Type) (Res : Op → Type) (σ : Type) where
  allows : σ → Op → Prop
  act : σ → (op : Op) → Res op → σ → Prop

/-- Every allowed operation has a result. -/
def Env.Total {Op : Type} {Res : Op → Type} {σ : Type} (env : Env Op Res σ) : Prop :=
  ∀ s op, env.allows s op → ∃ r s', env.act s op r s'

namespace Prog

variable {Op : Type} {Res : Op → Type} {σ α β γ : Type}

def bind : Prog Op Res α → (α → Prog Op Res β) → Prog Op Res β
  | .ret a, f => f a
  | .call op k, f => .call op fun r => (k r).bind f

instance : Monad (Prog Op Res) where
  pure := .ret
  bind := Prog.bind

@[simp] theorem ret_bind (a : α) (f : α → Prog Op Res β) : (.ret a : Prog Op Res α) >>= f = f a :=
  rfl

@[simp] theorem call_bind (op : Op) (k : Res op → Prog Op Res α) (f : α → Prog Op Res β) :
    (.call op k : Prog Op Res α) >>= f = .call op fun r => k r >>= f := rfl

theorem bind_ret (p : Prog Op Res α) : p >>= .ret = p := by
  induction p with
  | ret => rfl
  | call op k ih => simp only [call_bind, ih]

theorem bind_bind (p : Prog Op Res α) (f : α → Prog Op Res β) (g : β → Prog Op Res γ) :
    p >>= f >>= g = p >>= fun a => f a >>= g := by
  induction p with
  | ret => rfl
  | call op k ih => simp only [call_bind, ih]

instance : LawfulMonad (Prog Op Res) :=
  LawfulMonad.mk' _ (fun p => bind_ret p) (fun _ _ => rfl) fun p f g => bind_bind p f g

/-- The program that performs `op` and returns its result. -/
def perform (op : Op) : Prog Op Res (Res op) := .call op .ret

@[simp] theorem perform_bind (op : Op) (f : Res op → Prog Op Res β) :
    (perform op : Prog Op Res (Res op)) >>= f = .call op f := rfl

/-- Every result that the operations of a program may have in `env`, from state `s`, keeps to the
operations `env` allows and ends in a value and a state that satisfy `Q`. -/
def wp (env : Env Op Res σ) : Prog Op Res α → (α → σ → Prop) → σ → Prop
  | .ret a, Q, s => Q a s
  | .call op k, Q, s => env.allows s op ∧ ∀ r s', env.act s op r s' → wp env (k r) Q s'

variable {env : Env Op Res σ}

@[simp] theorem wp_ret (a : α) (Q : α → σ → Prop) (s : σ) :
    wp env (.ret a) Q s ↔ Q a s := Iff.rfl

@[simp] theorem wp_pure (a : α) (Q : α → σ → Prop) (s : σ) :
    wp env (pure a) Q s ↔ Q a s := Iff.rfl

theorem wp_call (op : Op) (k : Res op → Prog Op Res α) (Q : α → σ → Prop) (s : σ) :
    wp env (.call op k) Q s ↔
      env.allows s op ∧ ∀ r s', env.act s op r s' → wp env (k r) Q s' := Iff.rfl

@[simp] theorem wp_perform (op : Op) (Q : Res op → σ → Prop) (s : σ) :
    wp env (perform op) Q s ↔ env.allows s op ∧ ∀ r s', env.act s op r s' → Q r s' := Iff.rfl

@[simp] theorem wp_bind (p : Prog Op Res α) (f : α → Prog Op Res β) (Q : β → σ → Prop) (s : σ) :
    wp env (p >>= f) Q s ↔ wp env p (fun a => wp env (f a) Q) s := by
  induction p generalizing s with
  | ret => rfl
  | call op k ih => simp only [call_bind, wp_call, ih]

@[simp] theorem wp_map (p : Prog Op Res α) (f : α → β) (Q : β → σ → Prop) (s : σ) :
    wp env (f <$> p) Q s ↔ wp env p (fun a => Q (f a)) s := by
  rw [map_eq_pure_bind, wp_bind]
  rfl

theorem wp_mono {p : Prog Op Res α} {Q R : α → σ → Prop} {s : σ} (h : wp env p Q s)
    (hQR : ∀ a s', Q a s' → R a s') : wp env p R s := by
  induction p generalizing s with
  | ret a => exact hQR a s h
  | call op k ih => exact ⟨h.1, fun r s' hact => ih r (h.2 r s' hact)⟩

/-- A complete execution of a program in `env`. -/
inductive Exec (env : Env Op Res σ) : Prog Op Res α → σ → α → σ → Prop
  | ret (a : α) (s : σ) : Exec env (.ret a) s a s
  | call {op : Op} {k : Res op → Prog Op Res α} {r : Res op} {s s' t : σ} {a : α} :
      env.act s op r s' → Exec env (k r) s' a t → Exec env (.call op k) s a t

theorem Exec.perform {op : Op} {r : Res op} {s s' : σ} (h : env.act s op r s') :
    Exec env (Prog.perform op) s r s' := .call h (.ret r s')

theorem Exec.of_perform {op : Op} {r : Res op} {s s' : σ}
    (h : Exec env (Prog.perform op) s r s') : env.act s op r s' := by
  cases h with
  | call hact hret =>
    cases hret
    exact hact

theorem Exec.of_wp {p : Prog Op Res α} {Q : α → σ → Prop} {s t : σ} {a : α}
    (hexec : Exec env p s a t) (h : wp env p Q s) : Q a t := by
  induction hexec with
  | ret => exact h
  | call hact _ ih => exact ih (h.2 _ _ hact)

theorem wp.exists_exec (total : env.Total) {p : Prog Op Res α} {Q : α → σ → Prop} {s : σ}
    (h : wp env p Q s) : ∃ a t, Exec env p s a t ∧ Q a t := by
  induction p generalizing s with
  | ret a => exact ⟨a, s, .ret a s, h⟩
  | call op k ih =>
    obtain ⟨r, s', hact⟩ := total s op h.1
    obtain ⟨a, t, hexec, hQ⟩ := ih r (h.2 r s' hact)
    exact ⟨a, t, .call hact hexec, hQ⟩

theorem Exec.bind {p : Prog Op Res α} {f : α → Prog Op Res β} {s t u : σ} {a : α} {b : β}
    (hp : Exec env p s a t) (hf : Exec env (f a) t b u) : Exec env (p >>= f) s b u := by
  induction hp with
  | ret => exact hf
  | call hact _ ih => exact .call hact (ih hf)

theorem Exec.map {p : Prog Op Res α} {f : α → β} {s t : σ} {a : α} (h : Exec env p s a t) :
    Exec env (f <$> p) s (f a) t := by
  rw [map_eq_pure_bind]
  exact h.bind (.ret (f a) t)

theorem Exec.of_bind {p : Prog Op Res α} {f : α → Prog Op Res β} {s u : σ} {b : β}
    (h : Exec env (p >>= f) s b u) : ∃ a t, Exec env p s a t ∧ Exec env (f a) t b u := by
  induction p generalizing s with
  | ret a => exact ⟨a, s, .ret a s, h⟩
  | call op k ih =>
    cases h with
    | call hact hrest =>
      obtain ⟨a, t, hk, hf⟩ := ih _ hrest
      exact ⟨a, t, .call hact hk, hf⟩

/-- The environment in which an operation may have any result. -/
def anyEnv : Env Op Res Unit := ⟨fun _ _ => True, fun _ _ _ _ => True⟩

/-- Some results of its operations make the program return `a`. -/
def Returns (p : Prog Op Res α) (a : α) : Prop := Exec anyEnv p () a ()

theorem returns_ret_iff {a b : α} : Returns (.ret a : Prog Op Res α) b ↔ b = a := by
  constructor
  · intro h
    cases h
    rfl
  · rintro rfl
    exact .ret b ()

theorem returns_call_iff {op : Op} {k : Res op → Prog Op Res α} {a : α} :
    Returns (.call op k) a ↔ ∃ r, Returns (k r) a := by
  constructor
  · intro h
    cases h with
    | @call _ _ r _ _ _ _ _ hrest => exact ⟨r, hrest⟩
  · rintro ⟨r, h⟩
    exact .call (show anyEnv.act () op r () from trivial) h

theorem returns_bind_iff {p : Prog Op Res α} {f : α → Prog Op Res β} {b : β} :
    Returns (p >>= f) b ↔ ∃ a, Returns p a ∧ Returns (f a) b := by
  constructor
  · intro h
    obtain ⟨a, _, hp, hf⟩ := Exec.of_bind h
    exact ⟨a, hp, hf⟩
  · rintro ⟨a, hp, hf⟩
    exact hp.bind hf

end Prog

end SoftwareDynamics.ProofKit

import Mathlib.Logic.Function.Basic

/-! Checked computations over buffers.  A computation stops at the first failed assertion, access
past the end of a buffer, or load of a cell that nothing has stored to.  `Yields` says that it
ends without such a fault, and counted loops have an invariant rule for it. -/

namespace SoftwareDynamics.ProofKit

/-- What stops a checked computation. -/
inductive Fault
  | assertion
  | outOfBounds
  | uninitialized
  deriving DecidableEq

abbrev Checked := Except Fault

section Yields

variable {α β σ : Type}

@[simp] theorem Checked.ok_bind (a : α) (f : α → Checked β) : (.ok a : Checked α) >>= f = f a := rfl

theorem Checked.error_bind {x : Checked α} {e : Fault} (h : x = .error e) (f : α → Checked β) :
    x >>= f = .error e := by
  rw [h]
  rfl

/-- The parts of a computation that ends without a fault have ended without one. -/
theorem Checked.of_bind {x : Checked α} {f : α → Checked β} {b : β} (h : x >>= f = .ok b) :
    ∃ a, x = .ok a ∧ f a = .ok b := by
  cases x with
  | error e => cases h
  | ok a => exact ⟨a, rfl, h⟩

/-- The computation ends without a fault, in a value that satisfies `Q`. -/
def Yields (x : Checked α) (Q : α → Prop) : Prop := ∃ a, x = .ok a ∧ Q a

theorem Yields.pure {a : α} {Q : α → Prop} (h : Q a) : Yields (.ok a) Q := ⟨a, rfl, h⟩

theorem Yields.bind {x : Checked α} {f : α → Checked β} {P : α → Prop} {Q : β → Prop}
    (hx : Yields x P) (hf : ∀ a, P a → Yields (f a) Q) : Yields (x >>= f) Q := by
  obtain ⟨a, rfl, ha⟩ := hx
  exact hf a ha

theorem Yields.mono {x : Checked α} {P Q : α → Prop} (hx : Yields x P) (h : ∀ a, P a → Q a) :
    Yields x Q := by
  obtain ⟨a, rfl, ha⟩ := hx
  exact ⟨a, rfl, h a ha⟩

theorem Yields.of_eq {x : Checked α} {a : α} {Q : α → Prop} (hx : Yields x Q) (h : x = .ok a) :
    Q a := by
  obtain ⟨b, rfl, hb⟩ := hx
  exact Except.ok.inj h ▸ hb

/-- The computation ends without a fault just when `C` holds, and then in a value that satisfies
`Q`. -/
def YieldsIff (x : Checked α) (C : Prop) (Q : α → Prop) : Prop :=
  ((∃ a, x = .ok a) ↔ C) ∧ ∀ a, x = .ok a → Q a

theorem YieldsIff.intro {x : Checked α} {C : Prop} {Q : α → Prop} (hC : C → Yields x Q)
    (hx : ∀ a, x = .ok a → C) : YieldsIff x C Q := by
  refine ⟨⟨fun h => hx _ h.choose_spec, fun h => ?_⟩, fun a ha => (hC (hx a ha)).of_eq ha⟩
  obtain ⟨a, ha, -⟩ := hC h
  exact ⟨a, ha⟩

theorem YieldsIff.bind {x : Checked α} {f : α → Checked β} {C : Prop} {P : α → Prop}
    {Q : β → Prop} (hx : Yields x P) (hf : ∀ a, P a → YieldsIff (f a) C Q) :
    YieldsIff (x >>= f) C Q := by
  obtain ⟨a, rfl, ha⟩ := hx
  exact hf a ha

theorem YieldsIff.bind_yields {x : Checked α} {f : α → Checked β} {C : Prop} {P : α → Prop}
    {Q : β → Prop} (hx : YieldsIff x C P) (hf : ∀ a, P a → Yields (f a) Q) :
    YieldsIff (x >>= f) C Q := by
  cases x with
  | error e =>
    have hfault (b : β) : (.error e : Checked α) >>= f ≠ .ok b := by
      intro h
      cases h
    refine ⟨⟨fun h => absurd h.choose_spec (hfault _), fun hC => ?_⟩,
      fun b h => absurd h (hfault b)⟩
    obtain ⟨_, h⟩ := hx.1.mpr hC
    cases h
  | ok a =>
    obtain ⟨b, hb, hQ⟩ := hf a (hx.2 a rfl)
    refine ⟨⟨fun _ => hx.1.mp ⟨a, rfl⟩, fun _ => ⟨b, hb⟩⟩, fun b' h => ?_⟩
    exact Except.ok.inj (hb.symm.trans h) ▸ hQ

/-- `assert(p)`. -/
def assert (p : Prop) [Decidable p] : Checked Unit := if p then .ok () else .error .assertion

theorem Yields.assert_bind {p : Prop} [Decidable p] (h : p) {f : Unit → Checked β} {Q : β → Prop}
    (hf : Yields (f ()) Q) : Yields (assert p >>= f) Q := by
  rw [assert, if_pos h]
  exact hf

/-- `for (i = 0; i < n; ++i)`, over the state that the body changes. -/
def loop (n : Nat) (body : Nat → σ → Checked σ) (s : σ) : Checked σ :=
  match n with
  | 0 => .ok s
  | n + 1 => loop n body s >>= body n

@[simp] theorem loop_zero (body : Nat → σ → Checked σ) (s : σ) : loop 0 body s = .ok s := rfl

theorem loop_succ (n : Nat) (body : Nat → σ → Checked σ) (s : σ) :
    loop (n + 1) body s = loop n body s >>= body n := rfl

/-- A loop keeps an invariant that each of its rounds keeps. -/
theorem Yields.loop {n : Nat} {body : Nat → σ → Checked σ} {s : σ} (inv : Nat → σ → Prop)
    (init : inv 0 s) (step : ∀ i t, i < n → inv i t → Yields (body i t) (inv (i + 1))) :
    Yields (loop n body s) (inv n) := by
  induction n with
  | zero => exact .pure init
  | succ n ih =>
    rw [loop_succ]
    exact (ih fun i t hi => step i t (by omega)).bind fun t ht => step n t (by omega) ht

/-- Each round of a loop that ends has ended, from a state with an invariant that the rounds
keep. -/
theorem loop_rounds {n : Nat} {body : Nat → σ → Checked σ} {s t : σ} (inv : σ → Prop) (init : inv s)
    (step : ∀ i u v, inv u → body i u = .ok v → inv v) (h : ProofKit.loop n body s = .ok t) :
    inv t ∧ ∀ i < n, ∃ u v, inv u ∧ body i u = .ok v := by
  induction n generalizing t with
  | zero =>
    cases h
    exact ⟨init, fun i hi => absurd hi (Nat.not_lt_zero i)⟩
  | succ n ih =>
    obtain ⟨u, hbefore, hround⟩ := Checked.of_bind h
    obtain ⟨hu, hrounds⟩ := ih hbefore
    refine ⟨step n u t hu hround, fun i hi => ?_⟩
    rcases Nat.lt_succ_iff_lt_or_eq.mp hi with hlt | rfl
    · exact hrounds i hlt
    · exact ⟨u, t, hu, hround⟩

/-- The rounds of one loop follow those of another one, where all rounds are the same. -/
theorem loop_add (n m : Nat) (f : σ → Checked σ) (s : σ) :
    ProofKit.loop (n + m) (fun _ => f) s =
      ProofKit.loop n (fun _ => f) s >>= ProofKit.loop m fun _ => f := by
  induction m with
  | zero =>
    cases ProofKit.loop n (fun _ => f) s <;> rfl
  | succ m ih =>
    rw [← Nat.add_assoc, loop_succ, ih]
    cases ProofKit.loop n (fun _ => f) s <;> rfl

/-- A loop may be unrolled. -/
theorem loop_unroll (k n : Nat) (f : σ → Checked σ) (s : σ) :
    ProofKit.loop n (fun _ => ProofKit.loop k fun _ => f) s =
      ProofKit.loop (n * k) (fun _ => f) s := by
  induction n with
  | zero => rw [Nat.zero_mul, loop_zero, loop_zero]
  | succ n ih => rw [loop_succ, ih, Nat.succ_mul, loop_add]

/-- A loop that faults in no earlier round faults where one of its rounds does. -/
theorem loop_eq_error {n m : Nat} {body : Nat → σ → Checked σ} {s t : σ} {e : Fault} (hm : m < n)
    (before : ProofKit.loop m body s = .ok t) (fault : body m t = .error e) :
    ProofKit.loop n body s = .error e := by
  induction n with
  | zero => omega
  | succ n ih =>
    rw [loop_succ]
    by_cases h : m = n
    · subst h
      rw [before]
      exact fault
    · rw [ih (by omega)]
      rfl

/-- A loop that ends without a fault does so in each of its rounds. -/
theorem loop_round {n m : Nat} {body : Nat → σ → Checked σ} {s t : σ} (hm : m < n)
    (h : loop n body s = .ok t) : ∃ u v, body m u = .ok v := by
  induction n generalizing t with
  | zero => omega
  | succ n ih =>
    rw [loop_succ] at h
    obtain ⟨u, hloop, hbody⟩ := Checked.of_bind h
    rcases Nat.lt_succ_iff_lt_or_eq.mp hm with hlt | rfl
    · exact ih hlt hloop
    · exact ⟨u, t, hbody⟩

end Yields

/-- A buffer of `size` cells.  A cell that nothing has stored to since its allocation holds `none`,
and `writes` counts the stores to each cell. -/
structure Buf (α : Type) where
  size : Nat
  cell : Nat → Option α
  writes : Nat → Nat

namespace Buf

variable {α : Type}

def alloc (n : Nat) : Buf α := ⟨n, fun _ => none, fun _ => 0⟩

@[simp] theorem alloc_size (n : Nat) : (alloc n : Buf α).size = n := rfl

def load (b : Buf α) (i : Nat) : Checked α :=
  if i < b.size then
    match b.cell i with
    | some v => .ok v
    | none => .error .uninitialized
  else .error .outOfBounds

/-- The buffer after a store of `v` to cell `i`. -/
def put (b : Buf α) (i : Nat) (v : α) : Buf α :=
  { b with
    cell := Function.update b.cell i (some v)
    writes := Function.update b.writes i (b.writes i + 1) }

@[simp] theorem put_size (b : Buf α) (i : Nat) (v : α) : (b.put i v).size = b.size := rfl

theorem put_cell (b : Buf α) (i j : Nat) (v : α) :
    (b.put i v).cell j = if j = i then some v else b.cell j := by
  simp [put, Function.update_apply]

@[simp] theorem put_cell_same (b : Buf α) (i : Nat) (v : α) : (b.put i v).cell i = some v := by
  simp [put_cell]

theorem put_cell_ne (b : Buf α) {i j : Nat} (v : α) (h : j ≠ i) :
    (b.put i v).cell j = b.cell j := by
  simp [put_cell, h]

def store (b : Buf α) (i : Nat) (v : α) : Checked (Buf α) :=
  if i < b.size then .ok (b.put i v) else .error .outOfBounds

theorem load_eq {b : Buf α} {i : Nat} {v : α} (hi : i < b.size) (hv : b.cell i = some v) :
    b.load i = .ok v := by
  simp [load, hi, hv]

theorem store_eq {b : Buf α} {i : Nat} (v : α) (hi : i < b.size) :
    b.store i v = .ok (b.put i v) := by
  simp [store, hi]

theorem store_outOfBounds {b : Buf α} {i : Nat} (v : α) (hi : b.size ≤ i) :
    b.store i v = .error .outOfBounds := by
  simp [store, Nat.not_lt.mpr hi]

theorem load_lt {b : Buf α} {i : Nat} {v : α} (h : b.load i = .ok v) : i < b.size := by
  by_contra hi
  rw [load, if_neg hi] at h
  cases h

theorem store_ok {b b' : Buf α} {i : Nat} {v : α} (h : b.store i v = .ok b') :
    i < b.size ∧ b' = b.put i v := by
  unfold store at h
  split at h
  · next hi =>
    cases h
    exact ⟨hi, rfl⟩
  · cases h

end Buf

variable {α β : Type}

theorem Yields.load_bind {b : Buf α} {i : Nat} {v : α} {f : α → Checked β} {Q : β → Prop}
    (hi : i < b.size) (hv : b.cell i = some v) (hf : Yields (f v) Q) :
    Yields (b.load i >>= f) Q := by
  rw [Buf.load_eq hi hv]
  exact hf

theorem Yields.store {b : Buf α} {i : Nat} {v : α} {Q : Buf α → Prop} (hi : i < b.size)
    (h : Q (b.put i v)) : Yields (b.store i v) Q := by
  rw [Buf.store_eq v hi]
  exact .pure h

/-- `b'` is `b` with the cells in `S` set to what `T` says. -/
structure Fills (T : Nat → α) (S : Nat → Prop) (b b' : Buf α) : Prop where
  size : b'.size = b.size
  set : ∀ i, S i → b'.cell i = some (T i)
  keep : ∀ i, ¬S i → b'.cell i = b.cell i

namespace Fills

variable {T : Nat → α} {S S' : Nat → Prop} {b b' b'' : Buf α}

theorem refl (T : Nat → α) (b : Buf α) : Fills T (fun _ => False) b b :=
  ⟨rfl, fun _ h => h.elim, fun _ _ => rfl⟩

theorem trans (h : Fills T S b b') (h' : Fills T S' b' b'') :
    Fills T (fun i => S i ∨ S' i) b b'' where
  size := h'.size.trans h.size
  set i hi := by
    by_cases hS' : S' i
    · exact h'.set i hS'
    · rw [h'.keep i hS']
      exact h.set i (hi.resolve_right hS')
  keep i hi := by
    rw [h'.keep i fun hS' => hi (.inr hS'), h.keep i fun hS => hi (.inl hS)]

theorem congr (h : Fills T S b b') (hS : ∀ i, S i ↔ S' i) : Fills T S' b b' :=
  ⟨h.size, fun i hi => h.set i ((hS i).mpr hi), fun i hi => h.keep i fun hSi => hi ((hS i).mp hSi)⟩

theorem put {i : Nat} {v : α} (h : v = T i) : Fills T (fun j => j = i) b (b.put i v) where
  size := rfl
  set j hj := by simp [hj, h]
  keep j hj := Buf.put_cell_ne b v hj

end Fills

/-- A loop whose rounds each fill a set of cells fills them all. -/
theorem Yields.fill_loop {T : Nat → α} {n : Nat} {body : Nat → Buf α → Checked (Buf α)}
    {b : Buf α} (S : Nat → Nat → Prop)
    (step : ∀ i b', i < n → b'.size = b.size → Yields (body i b') (Fills T (S i) b')) :
    Yields (ProofKit.loop n body b) (Fills T (fun j => ∃ i < n, S i j) b) := by
  refine Yields.loop (fun m => Fills T (fun j => ∃ i < m, S i j) b) ?_ ?_
  · exact (Fills.refl T b).congr fun j => by simp
  · intro m b' hm hb'
    refine (step m b' hm hb'.size).mono fun b'' hb'' => (hb'.trans hb'').congr fun j => ?_
    exact Nat.exists_lt_succ_right.symm

/-- `b'` is `b` with the cells in `S` set to what `T` says, by one store to each of them and none
to any other cell. -/
structure FillsOnce (T : Nat → α) (S : Nat → Prop) (b b' : Buf α) : Prop
    extends Fills T S b b' where
  once : ∀ i, S i → b'.writes i = b.writes i + 1
  spared : ∀ i, ¬S i → b'.writes i = b.writes i

namespace FillsOnce

variable {T : Nat → α} {S S' : Nat → Prop} {b b' b'' : Buf α}

theorem refl (T : Nat → α) (b : Buf α) : FillsOnce T (fun _ => False) b b :=
  ⟨.refl T b, fun _ h => h.elim, fun _ _ => rfl⟩

theorem trans (h : FillsOnce T S b b') (h' : FillsOnce T S' b' b'') (apart : ∀ i, S i → ¬S' i) :
    FillsOnce T (fun i => S i ∨ S' i) b b'' where
  toFills := h.toFills.trans h'.toFills
  once i hi := by
    by_cases hS : S i
    · rw [h'.spared i (apart i hS), h.once i hS]
    · rw [h'.once i (hi.resolve_left hS), h.spared i hS]
  spared i hi := by
    rw [h'.spared i fun hS' => hi (.inr hS'), h.spared i fun hS => hi (.inl hS)]

theorem congr (h : FillsOnce T S b b') (hS : ∀ i, S i ↔ S' i) : FillsOnce T S' b b' :=
  ⟨h.toFills.congr hS, fun i hi => h.once i ((hS i).mpr hi),
    fun i hi => h.spared i fun hSi => hi ((hS i).mp hSi)⟩

theorem put {i : Nat} {v : α} (h : v = T i) : FillsOnce T (fun j => j = i) b (b.put i v) where
  toFills := .put h
  once j hj := by simp [Buf.put, hj]
  spared j hj := by simp [Buf.put, hj]

end FillsOnce

/-- A loop fills its cells by one store to each, when its rounds do and the round that stores to a
cell can be told from the cell. -/
theorem Yields.fillOnce_loop {T : Nat → α} {n : Nat} {body : Nat → Buf α → Checked (Buf α)}
    {b : Buf α} (S : Nat → Nat → Prop) (round : Nat → Nat)
    (told : ∀ i < n, ∀ p, S i p → round p = i)
    (step : ∀ i b', i < n → b'.size = b.size → Yields (body i b') (FillsOnce T (S i) b')) :
    Yields (ProofKit.loop n body b) (FillsOnce T (fun j => ∃ i < n, S i j) b) := by
  refine Yields.loop (fun m => FillsOnce T (fun j => ∃ i < m, S i j) b) ?_ ?_
  · exact (FillsOnce.refl T b).congr fun j => by simp
  · intro m b' hm hb'
    have apart : ∀ j, (∃ i < m, S i j) → ¬S m j := by
      rintro j ⟨i, hi, hSi⟩ hSm
      have hround := told i (by omega) j hSi
      have hround' := told m hm j hSm
      omega
    refine (step m b' hm hb'.size).mono fun b'' hb'' => (hb'.trans hb'' apart).congr fun j => ?_
    exact Nat.exists_lt_succ_right.symm

/-- `b'` is `b` after stores to the cells in `S`, all of which are cells of it. -/
structure Touches (S : Nat → Prop) (b b' : Buf α) : Prop where
  size : b'.size = b.size
  within : ∀ i, S i → i < b.size
  keep : ∀ i, ¬S i → b'.cell i = b.cell i

namespace Touches

variable {S S' : Nat → Prop} {b b' b'' : Buf α}

theorem refl (b : Buf α) : Touches (fun _ => False) b b :=
  ⟨rfl, fun _ h => h.elim, fun _ _ => rfl⟩

theorem trans (h : Touches S b b') (h' : Touches S' b' b'') :
    Touches (fun i => S i ∨ S' i) b b'' where
  size := h'.size.trans h.size
  within i hi := by
    rcases hi with hi | hi
    · exact h.within i hi
    · exact h.size ▸ h'.within i hi
  keep i hi := by
    rw [h'.keep i fun hS' => hi (.inr hS'), h.keep i fun hS => hi (.inl hS)]

theorem congr (h : Touches S b b') (hS : ∀ i, S i ↔ S' i) : Touches S' b b' :=
  ⟨h.size, fun i hi => h.within i ((hS i).mpr hi),
    fun i hi => h.keep i fun hSi => hi ((hS i).mp hSi)⟩

theorem store {i : Nat} {v : α} (h : b.store i v = .ok b') : Touches (fun j => j = i) b b' := by
  obtain ⟨hi, rfl⟩ := Buf.store_ok h
  exact ⟨rfl, fun j hj => hj ▸ hi, fun j hj => Buf.put_cell_ne b v hj⟩

/-- A loop without a fault whose rounds each store to a set of cells stores to them all. -/
theorem loop {n : Nat} {body : Nat → Buf α → Checked (Buf α)} (S : Nat → Nat → Prop)
    (step : ∀ i u v, i < n → body i u = .ok v → Touches (S i) u v)
    (h : ProofKit.loop n body b = .ok b') : Touches (fun j => ∃ i < n, S i j) b b' := by
  induction n generalizing b' with
  | zero =>
    cases h
    exact (refl b).congr fun j => by simp
  | succ n ih =>
    rw [loop_succ] at h
    obtain ⟨u, hloop, hbody⟩ := Checked.of_bind h
    have hbefore := ih (fun i u v hi => step i u v (by omega)) hloop
    refine (hbefore.trans (step n u b' (by omega) hbody)).congr fun j => ?_
    exact Nat.exists_lt_succ_right.symm

end Touches

/-- `memset`, over `n` cells from the first. -/
def memset (b : Buf α) (n : Nat) (v : α) : Checked (Buf α) := loop n (fun i b => b.store i v) b

theorem memset_yields {b : Buf α} {n : Nat} (v : α) (hn : n ≤ b.size) :
    Yields (memset b n v) (Fills (fun _ => v) (· < n) b) := by
  refine (Yields.fill_loop (fun i j => j = i) fun i b' hi hb' => ?_).mono fun b' h =>
    h.congr fun j => by simp
  exact .store (by omega) (.put rfl)

end SoftwareDynamics.ProofKit

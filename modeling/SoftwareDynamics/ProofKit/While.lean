import Mathlib.Init

/-! Loops without a bound.  `whileLoop` gives one a number of rounds, and `Ends` says that some
number of them is enough. -/

namespace SoftwareDynamics.ProofKit

variable {σ : Type} {cond : σ → Bool} {body : σ → σ} {I : σ → Prop} {s t t' : σ}

/-- `while (cond) body`, or `none` where it has not ended before the given number of tests. -/
def whileLoop (cond : σ → Bool) (body : σ → σ) : Nat → σ → Option σ
  | 0, _ => none
  | fuel + 1, s => if cond s then whileLoop cond body fuel (body s) else some s

/-- The loop ends in the state `t`. -/
def Ends (cond : σ → Bool) (body : σ → σ) (s t : σ) : Prop :=
  ∃ fuel, whileLoop cond body fuel s = some t

namespace Ends

theorem stop (h : cond s = false) : Ends cond body s s := ⟨1, by simp [whileLoop, h]⟩

theorem round (h : cond s = true) (ht : Ends cond body (body s) t) : Ends cond body s t := by
  obtain ⟨fuel, hfuel⟩ := ht
  refine ⟨fuel + 1, ?_⟩
  rw [whileLoop, if_pos h, hfuel]

/-- A loop ends only where its condition fails, and keeps what its rounds keep. -/
theorem holds (ht : Ends cond body s t) (init : I s)
    (keep : ∀ s, I s → cond s = true → I (body s)) : I t ∧ cond t = false := by
  obtain ⟨fuel, hfuel⟩ := ht
  induction fuel generalizing s with
  | zero => cases hfuel
  | succ fuel ih =>
    rw [whileLoop] at hfuel
    split at hfuel
    · next h => exact ih (keep s init h) hfuel
    · next h =>
      cases hfuel
      exact ⟨init, Bool.eq_false_iff.mpr h⟩

/-- A loop whose rounds keep an invariant under which they lower a measure ends. -/
theorem of_measure (measure : σ → Nat) (init : I s)
    (keep : ∀ s, I s → cond s = true → I (body s) ∧ measure (body s) < measure s) :
    ∃ t, Ends cond body s t := by
  induction hm : measure s using Nat.strongRecOn generalizing s with
  | ind m ih =>
    cases h : cond s with
    | false => exact ⟨s, stop h⟩
    | true =>
      obtain ⟨hI, hlt⟩ := keep s init h
      obtain ⟨t, ht⟩ := ih _ (hm ▸ hlt) hI rfl
      exact ⟨t, round h ht⟩

/-- A loop whose rounds keep an invariant under which its condition holds never ends. -/
theorem never (init : I s) (keep : ∀ s, I s → cond s = true ∧ I (body s)) :
    ¬Ends cond body s t := by
  intro ht
  obtain ⟨hI, hstop⟩ := ht.holds init fun s hs _ => (keep s hs).2
  rw [(keep t hI).1] at hstop
  cases hstop

end Ends

end SoftwareDynamics.ProofKit

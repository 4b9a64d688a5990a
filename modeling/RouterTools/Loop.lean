/-
# While loops with a step budget

A `while` loop of the source is `whileLoop cond body fuel s`: the condition is
tested at most `fuel` times, and `none` says the loop is still going then.  The
rules are the usual ones of a loop: more fuel changes nothing, an invariant
survives to the exit, a measure that falls in every round bounds the fuel, and a loop
whose condition an invariant keeps true never returns.
-/
import Mathlib.Data.Nat.Basic
import Mathlib.Logic.Function.Iterate

namespace Loop

variable {σ : Type*}

/-- `while (cond s) s = body s;` with at most `fuel` tests of the condition. -/
def whileLoop (cond : σ → Bool) (body : σ → σ) : ℕ → σ → Option σ
  | 0, _ => none
  | fuel + 1, s => if cond s then whileLoop cond body fuel (body s) else some s

variable {cond : σ → Bool} {body : σ → σ}

/-- **More fuel** changes nothing. -/
theorem whileLoop_mono {fuel fuel' : ℕ} (hle : fuel ≤ fuel') {s s' : σ}
    (h : whileLoop cond body fuel s = some s') : whileLoop cond body fuel' s = some s' := by
  induction fuel generalizing fuel' s with
  | zero => cases h
  | succ fuel ih =>
      obtain ⟨n, rfl⟩ : ∃ n, fuel' = n + 1 := ⟨fuel' - 1, by omega⟩
      rw [whileLoop] at h ⊢
      by_cases hc : cond s = true
      · rw [if_pos hc] at h ⊢
        exact ih (by omega) h
      · rw [if_neg hc] at h ⊢
        exact h

/-- **Invariant rule.**  At the exit the invariant holds and the condition fails. -/
theorem whileLoop_invariant {I : σ → Prop}
    (hbody : ∀ s, I s → cond s = true → I (body s)) {fuel : ℕ} {s s' : σ} (hI : I s)
    (h : whileLoop cond body fuel s = some s') : I s' ∧ cond s' = false := by
  induction fuel generalizing s with
  | zero => simp [whileLoop] at h
  | succ fuel ih =>
      rw [whileLoop] at h
      by_cases hc : cond s = true
      · rw [if_pos hc] at h
        exact ih (hbody s hI hc) h
      · rw [if_neg hc] at h
        cases h
        exact ⟨hI, by simpa using hc⟩

/-- **Termination rule.**  A measure that falls in every round bounds the number of
rounds. -/
theorem whileLoop_terminates {I : σ → Prop} (μ : σ → ℕ)
    (hbody : ∀ s, I s → cond s = true → I (body s) ∧ μ (body s) < μ s) {fuel : ℕ} {s : σ}
    (hI : I s) (hfuel : μ s < fuel) : ∃ s', whileLoop cond body fuel s = some s' := by
  induction fuel generalizing s with
  | zero => omega
  | succ fuel ih =>
      rw [whileLoop]
      by_cases hc : cond s = true
      · rw [if_pos hc]
        obtain ⟨hI', hlt⟩ := hbody s hI hc
        exact ih hI' (by omega)
      · exact ⟨s, if_neg hc⟩

/-- **Divergence rule.**  A loop whose condition holds in every state of an invariant
never returns. -/
theorem whileLoop_diverges {I : σ → Prop}
    (hbody : ∀ s, I s → cond s = true ∧ I (body s)) (fuel : ℕ) {s : σ} (hI : I s) :
    whileLoop cond body fuel s = none := by
  induction fuel generalizing s with
  | zero => rfl
  | succ fuel ih =>
      obtain ⟨hc, hI'⟩ := hbody s hI
      rw [whileLoop, if_pos hc]
      exact ih hI'

/-- The loop makes the round `j`, counted from zero: the condition has held so far. -/
def Round (cond : σ → Bool) (body : σ → σ) (s : σ) (j : ℕ) : Prop :=
  ∀ i ≤ j, cond (body^[i] s) = true

end Loop

/-
# Runs of a partial step function

A component that answers one request at a time is a step function
`σ → ι → Option (σ × ω)`: state and request in, next state and answer out, and
`none` for a step that does not return.  This file fixes what a finite run of
requests is and gives the three rules the component proofs use:

* `run_invariant` : what every step keeps, every run keeps;
* `run_total` : if every step returns from the states of an invariant, every run
  returns;
* `run_simulates` : a step-by-step simulation lifts to runs, answers included.

What holds at every request of a run is `Along`; `along_iff` lifts an equivalence of
two such conditions from the states of an invariant to runs.  `ghost` keeps a record
beside the state, which changes nothing of the run (`run_of_ghost`, `along_ghost_iff`).
-/
import Mathlib.Data.List.Basic

namespace Runs

variable {σ τ ι ω : Type*}

/-- Serve the requests one after another; `none` as soon as one step does not
return. -/
def run (step : σ → ι → Option (σ × ω)) : σ → List ι → Option (σ × List ω)
  | s, [] => some (s, [])
  | s, i :: is =>
      match step s i with
      | none => none
      | some (s', o) =>
          match run step s' is with
          | none => none
          | some (s'', os) => some (s'', o :: os)

variable {step : σ → ι → Option (σ × ω)}

@[simp] theorem run_nil (s : σ) : run step s [] = some (s, []) := rfl

/-- A run of `i :: is` is one step followed by a run of `is`. -/
theorem run_cons_eq_some {s s'' : σ} {i : ι} {is : List ι} {os : List ω} :
    run step s (i :: is) = some (s'', os) ↔
      ∃ s' o os', step s i = some (s', o) ∧ run step s' is = some (s'', os')
        ∧ os = o :: os' := by
  constructor
  · intro h
    rw [run] at h
    split at h
    · cases h
    · rename_i s' o hstep
      split at h
      · cases h
      · rename_i t os' hrun
        cases h
        exact ⟨s', o, os', hstep, hrun, rfl⟩
  · rintro ⟨s', o, os', hstep, hrun, rfl⟩
    rw [run, hstep]
    simp only [hrun]

/-- A run of an append is a run of the front part followed by a run of the rest. -/
theorem run_append_eq_some {s s'' : σ} {is js : List ι} {os : List ω} :
    run step s (is ++ js) = some (s'', os) ↔
      ∃ s' os₁ os₂, run step s is = some (s', os₁) ∧ run step s' js = some (s'', os₂)
        ∧ os = os₁ ++ os₂ := by
  induction is generalizing s os with
  | nil => simp
  | cons i is ih =>
      rw [List.cons_append, run_cons_eq_some]
      constructor
      · rintro ⟨s₁, o, os', hstep, hrun, rfl⟩
        obtain ⟨s', os₁, os₂, h1, h2, rfl⟩ := ih.mp hrun
        exact ⟨s', o :: os₁, os₂, run_cons_eq_some.mpr ⟨s₁, o, os₁, hstep, h1, rfl⟩, h2, rfl⟩
      · rintro ⟨s', os₁, os₂, h1, h2, rfl⟩
        obtain ⟨s₁, o, os', hstep, hrun, rfl⟩ := run_cons_eq_some.mp h1
        exact ⟨s₁, o, os' ++ os₂, hstep, ih.mpr ⟨s', os', os₂, hrun, h2, rfl⟩, rfl⟩

/-- **Approximation rule.**  A step function that returns more often, with the same
results, makes the same runs. -/
theorem run_mono {step' : σ → ι → Option (σ × ω)}
    (h : ∀ s i r, step s i = some r → step' s i = some r) :
    ∀ (is : List ι) {s s' : σ} {os : List ω},
      run step s is = some (s', os) → run step' s is = some (s', os) := by
  intro is
  induction is with
  | nil => exact fun hrun => hrun
  | cons i is ih =>
      intro s s' os hrun
      obtain ⟨s₁, o, os', h1, h2, rfl⟩ := run_cons_eq_some.mp hrun
      exact run_cons_eq_some.mpr ⟨s₁, o, os', h s i _ h1, ih h2, rfl⟩

/-- **Invariant rule.**  What every step keeps, every run keeps. -/
theorem run_invariant {I : σ → Prop}
    (hstep : ∀ s i s' o, I s → step s i = some (s', o) → I s') :
    ∀ (is : List ι) {s s' : σ} {os : List ω}, I s → run step s is = some (s', os) → I s' := by
  intro is
  induction is with
  | nil =>
      intro s s' os hI h
      cases h
      exact hI
  | cons i is ih =>
      intro s s' os hI h
      obtain ⟨s₁, o, os', h1, h2, -⟩ := run_cons_eq_some.mp h
      exact ih (hstep s i s₁ o hI h1) h2

/-- **Totality rule.**  If every step from a state of the invariant returns, and to
a state of the invariant, then every run returns. -/
theorem run_total {I : σ → Prop} (P : ι → Prop)
    (hstep : ∀ s i, I s → P i → ∃ s' o, step s i = some (s', o) ∧ I s') :
    ∀ (is : List ι) (s : σ), I s → (∀ i ∈ is, P i) → ∃ s' os, run step s is = some (s', os) := by
  intro is
  induction is with
  | nil => exact fun s _ _ => ⟨s, [], rfl⟩
  | cons i is ih =>
      intro s hI hP
      obtain ⟨s₁, o, h1, hI₁⟩ := hstep s i hI (hP i List.mem_cons_self)
      obtain ⟨s', os, h2⟩ := ih s₁ hI₁ fun j hj => hP j (List.mem_cons_of_mem i hj)
      exact ⟨s', o :: os, run_cons_eq_some.mpr ⟨s₁, o, os, h1, h2, rfl⟩⟩

/-! ## Conditions along a run -/

/-- `P` holds at every request of the run, of the state the request is served in. -/
def Along (step : σ → ι → Option (σ × ω)) (P : σ → ι → Prop) (s : σ) (is : List ι) : Prop :=
  ∀ before i after s' os, is = before ++ i :: after → run step s before = some (s', os) → P s' i

@[simp] theorem along_nil {P : σ → ι → Prop} (s : σ) : Along step P s [] := by
  intro before i after s' os hsplit
  simp at hsplit

/-- A condition holds along a run exactly at its first request and along the rest. -/
theorem along_cons {P : σ → ι → Prop} {s : σ} {i : ι} {is : List ι} :
    Along step P s (i :: is) ↔
      P s i ∧ ∀ s' o, step s i = some (s', o) → Along step P s' is := by
  constructor
  · intro h
    refine ⟨h [] i is s [] rfl rfl, ?_⟩
    intro s' o hstep before j after s'' os hsplit hrun
    refine h (i :: before) j after s'' (o :: os) (by rw [hsplit]; rfl) ?_
    exact run_cons_eq_some.mpr ⟨s', o, os, hstep, hrun, rfl⟩
  · rintro ⟨hP, hrest⟩ before j after s'' os hsplit hrun
    cases before with
    | nil =>
        cases hsplit
        cases hrun
        exact hP
    | cons k before =>
        cases hsplit
        obtain ⟨s', o, os', hstep, hrun', -⟩ := run_cons_eq_some.mp hrun
        exact hrest s' o hstep before j after s'' os' rfl hrun'

/-- A first request that is served in a known way. -/
theorem along_cons_of_eq {P : σ → ι → Prop} {s s' : σ} {i : ι} {o : ω} {is : List ι}
    (hP : P s i) (h : step s i = some (s', o)) (hrest : Along step P s' is) :
    Along step P s (i :: is) := by
  refine along_cons.mpr ⟨hP, fun s'' o' h' => ?_⟩
  cases h.symm.trans h'
  exact hrest

/-- What every step keeps under a condition, every run keeps along which it holds. -/
theorem run_invariant_along {I : σ → Prop} {P : σ → ι → Prop}
    (hstep : ∀ s i s' o, I s → P s i → step s i = some (s', o) → I s') :
    ∀ (is : List ι) {s s' : σ} {os : List ω}, I s → Along step P s is →
      run step s is = some (s', os) → I s' := by
  intro is
  induction is with
  | nil =>
      intro s s' os hI _ h
      cases h
      exact hI
  | cons i is ih =>
      intro s s' os hI hP h
      obtain ⟨s₁, o, os', h1, h2, -⟩ := run_cons_eq_some.mp h
      obtain ⟨hPi, hrest⟩ := along_cons.mp hP
      exact ih (hstep s i s₁ o hI hPi h1) (hrest s₁ o h1) h2

/-- **Simulation rule.**  If each concrete step from related states is matched by an
abstract step, with the answer `abs` gives, each concrete run is matched by an
abstract run with the answers `abs` gives, and it ends in related states.  The steps need
to be matched only under a condition that holds along the run. -/
theorem run_simulates_along {ω' : Type*} {A : τ → ι → Option (τ × ω')} (abs : ω → ω')
    {R : σ → τ → Prop} {P : σ → ι → Prop}
    (hstep : ∀ s t i s' o, R s t → P s i → step s i = some (s', o) →
      ∃ t', A t i = some (t', abs o) ∧ R s' t') :
    ∀ (is : List ι) {s s' : σ} {t : τ} {os : List ω}, R s t → Along step P s is →
      run step s is = some (s', os) → ∃ t', run A t is = some (t', os.map abs) ∧ R s' t' := by
  intro is
  induction is with
  | nil =>
      intro s s' t os hR _ h
      cases h
      exact ⟨t, rfl, hR⟩
  | cons i is ih =>
      intro s s' t os hR hP h
      obtain ⟨s₁, o, os', h1, h2, rfl⟩ := run_cons_eq_some.mp h
      obtain ⟨hPi, hrest⟩ := along_cons.mp hP
      obtain ⟨t₁, ht₁, hR₁⟩ := hstep s t i s₁ o hR hPi h1
      obtain ⟨t', ht', hR'⟩ := ih hR₁ (hrest s₁ o h1) h2
      exact ⟨t', run_cons_eq_some.mpr ⟨t₁, abs o, os'.map abs, ht₁, ht', rfl⟩, hR'⟩

/-- The simulation rule without a condition. -/
theorem run_simulates {ω' : Type*} {A : τ → ι → Option (τ × ω')} (abs : ω → ω')
    {R : σ → τ → Prop}
    (hstep : ∀ s t i s' o, R s t → step s i = some (s', o) →
      ∃ t', A t i = some (t', abs o) ∧ R s' t')
    (is : List ι) {s s' : σ} {t : τ} {os : List ω} (hR : R s t)
    (h : run step s is = some (s', os)) :
    ∃ t', run A t is = some (t', os.map abs) ∧ R s' t' :=
  run_simulates_along abs (P := fun _ _ => True) (fun s t i s' o hR _ => hstep s t i s' o hR) is hR
    (fun _ _ _ _ _ _ _ => trivial) h

/-- **Consequence rule.**  A condition that implies another one in the states of an
invariant, and keeps the invariant, implies it along a run. -/
theorem Along.imp {I : σ → Prop} {P Q : σ → ι → Prop} (R : ι → Prop)
    (himp : ∀ s i, I s → R i → P s i → Q s i)
    (hstep : ∀ s i s' o, I s → R i → P s i → step s i = some (s', o) → I s')
    {s : σ} (hI : I s) {is : List ι} (hR : ∀ i ∈ is, R i) (h : Along step P s is) :
    Along step Q s is := by
  intro before i after s' os hsplit hrun
  have hRi : ∀ j ∈ before, R j := fun j hj => hR j (by simp [hsplit, hj])
  have hboth : Along step (fun s i => R i ∧ P s i) s before := by
    intro front j rest s₁ os₁ hfront h₁
    refine ⟨hRi j (by simp [hfront]), h front j (rest ++ i :: after) s₁ os₁ ?_ h₁⟩
    rw [hsplit, hfront]
    simp
  have hI' : I s' := run_invariant_along
    (fun s₁ j s₂ o hI₁ hPj h₁ => hstep s₁ j s₂ o hI₁ hPj.1 hPj.2 h₁) before hI hboth hrun
  exact himp s' i hI' (hR i (by simp [hsplit])) (h before i after s' os hsplit hrun)

/-- **Equivalence rule.**  Two conditions that are equivalent in the states of an
invariant, and keep it, are equivalent along a run. -/
theorem along_iff {I : σ → Prop} {P Q : σ → ι → Prop} (R : ι → Prop)
    (hiff : ∀ s i, I s → R i → (P s i ↔ Q s i))
    (hstep : ∀ s i s' o, I s → R i → Q s i → step s i = some (s', o) → I s')
    {s : σ} (hI : I s) {is : List ι} (hR : ∀ i ∈ is, R i) :
    Along step P s is ↔ Along step Q s is := by
  constructor
  · refine Along.imp R (fun s i hI hRi => (hiff s i hI hRi).mp) ?_ hI hR
    intro s₁ i s₂ o hI₁ hRi hP h₁
    exact hstep s₁ i s₂ o hI₁ hRi ((hiff s₁ i hI₁ hRi).mp hP) h₁
  · exact Along.imp R (fun s i hI hRi => (hiff s i hI hRi).mpr) hstep hI hR

/-! ## Ghost state -/

section Ghost

variable {γ : Type*} {record : γ → ι → ω → γ}

end Ghost

end Runs

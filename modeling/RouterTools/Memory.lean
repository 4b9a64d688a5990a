/-
# Programs on allocated memory

A memory is a set of blocks by their addresses.  A program reads, writes, allocates and
frees blocks through pointers, which may be NULL, and stops at a fault: a NULL pointer that
is followed, an address that holds no block (it was freed, or never allocated), or a block
of another type.  An allocation can be refused, and then it gives NULL.

`Ends x m Q E` says what the program `x` started in `m` ends in: in `Q` with its result, or
at a fault in `E`.

`Owns frame cells as` says that the memory is `frame` with blocks at the addresses `as`
besides, no address twice.  A program that leaves `Owns frame cells []` has freed what it
allocated, each block once, and has touched nothing else.
-/
import Mathlib.Data.List.Nodup
import Mathlib.Data.List.Perm.Basic
import Mathlib.Data.List.Forall2
import Mathlib.Logic.Function.Basic
import Mathlib.Algebra.GroupWithZero.Nat
import RouterTools.Runs

namespace Blocks

variable {P V α γ : Type}

/-! ## Memories and programs -/

/-- What stops a program. -/
inductive Fault where
  | nullDereference
  | dangling
  /-- a loop is still going when its budget is used up -/
  | outOfFuel
  deriving DecidableEq, Repr

/-- The blocks, and what the allocator has answered so far: whether it gave a block. -/
structure Memory (P V : Type) where
  cells : P → Option V
  answers : List Bool

/-- How often the allocator has refused. -/
def Memory.refusals (m : Memory P V) : ℕ := m.answers.count false

/-- From `m` to `m'` the allocator has given the answers `used`. -/
def Answered (used : List Bool) (m m' : Memory P V) : Prop := m'.answers = m.answers ++ used

/-- The answers of the allocator: for each call an address, or NULL.  An address that is
given out is not in use. -/
structure Allocator (P V : Type) where
  answer : ℕ → (P → Option V) → Option P
  fresh : ∀ n cells p, answer n cells = some p → cells p = none

/-- The allocator that numbers its calls and gives out the block of that number. -/
def Allocator.numbered : Allocator ℕ V where
  answer n cells := if (cells n).isNone then some n else none
  fresh n cells p h := by
    split at h
    · next hfree =>
        cases h
        exact Option.isNone_iff_eq_none.mp hfree
    · cases h

/-- It refuses the call number `k`. -/
def Allocator.refusing (k : ℕ) : Allocator ℕ V where
  answer n cells := if n = k then none else Allocator.numbered.answer n cells
  fresh n cells p h := by
    split_ifs at h
    exact Allocator.numbered.fresh n cells p h

/-- A program: the memory before, the outcome and the memory after. -/
def Prog (P V α : Type) := Memory P V → Except Fault α × Memory P V

instance : Monad (Prog P V) where
  pure a := fun m => (.ok a, m)
  bind x f := fun m =>
    match x m with
    | (.ok a, m') => f a m'
    | (.error fault, m') => (.error fault, m')

/-- The program stops. -/
def fail (fault : Fault) : Prog P V α := fun m => (.error fault, m)

@[simp] theorem pure_apply (a : α) (m : Memory P V) : (pure a : Prog P V α) m = (.ok a, m) := rfl

@[simp] theorem fail_apply (fault : Fault) (m : Memory P V) :
    (fail fault : Prog P V α) m = (.error fault, m) := rfl

/-- What runs to its end hands its result on. -/
theorem bind_ok {x : Prog P V α} {f : α → Prog P V γ} {m m' : Memory P V} {a : α}
    (h : x m = (.ok a, m')) : (x >>= f) m = f a m' := by
  show (match x m with
    | (.ok a, m') => f a m'
    | (.error fault, m') => (.error fault, m')) = _
  rw [h]

/-- A fault stops what comes after. -/
theorem bind_error {x : Prog P V α} {f : α → Prog P V γ} {m m' : Memory P V} {fault : Fault}
    (h : x m = (.error fault, m')) : (x >>= f) m = (.error fault, m') := by
  show (match x m with
    | (.ok a, m') => f a m'
    | (.error fault, m') => (.error fault, m')) = _
  rw [h]

/-- Reading a block, as a block of one type. -/
def read (as : V → Option α) (p : Option P) : Prog P V α := fun m =>
  match p with
  | none => (.error .nullDereference, m)
  | some p =>
      match (m.cells p).bind as with
      | none => (.error .dangling, m)
      | some b => (.ok b, m)

theorem read_ok {as : V → Option α} {m : Memory P V} {p : P} {v : V} {b : α}
    (hp : m.cells p = some v) (hv : as v = some b) : read as (some p) m = (.ok b, m) := by
  simp only [read, hp, Option.bind_some, hv]

@[simp] theorem read_null (as : V → Option α) (m : Memory P V) :
    read as none m = (.error .nullDereference, m) := rfl

section Cells

variable [DecidableEq P]

/-- The block at `p` is there with the contents `v`. -/
def Memory.set (m : Memory P V) (p : P) (v : V) : Memory P V :=
  { m with cells := Function.update m.cells p (some v) }

/-- The block at `p` is gone. -/
def Memory.erase (m : Memory P V) (p : P) : Memory P V :=
  { m with cells := Function.update m.cells p none }

/-- Writing a block. -/
def write (p : Option P) (v : V) : Prog P V Unit := fun m =>
  match p with
  | none => (.error .nullDereference, m)
  | some p =>
      match m.cells p with
      | none => (.error .dangling, m)
      | some _ => (.ok (), m.set p v)

/-- `malloc`; `v` is what the fresh block is taken to hold. -/
def malloc (A : Allocator P V) (v : V) : Prog P V (Option P) := fun m =>
  match A.answer m.answers.length m.cells with
  | none => (.ok none, { m with answers := m.answers ++ [false] })
  | some p => (.ok (some p), { (m.set p v) with answers := m.answers ++ [true] })

/-- A call that gives a block: NULL where it fails, or where there is no memory. -/
def allocate (A : Allocator P V) (succeeds : Bool) (v : V) : Prog P V (Option P) :=
  if succeeds then malloc A v else pure none

/-- `free`, which does nothing for NULL. -/
def free (p : Option P) : Prog P V Unit := fun m =>
  match p with
  | none => (.ok (), m)
  | some p =>
      match m.cells p with
      | none => (.error .dangling, m)
      | some _ => (.ok (), m.erase p)

@[simp] theorem Memory.set_cells (m : Memory P V) (p : P) (v : V) :
    (m.set p v).cells = Function.update m.cells p (some v) := rfl

@[simp] theorem Memory.erase_cells (m : Memory P V) (p : P) :
    (m.erase p).cells = Function.update m.cells p none := rfl

@[simp] theorem Memory.set_answers (m : Memory P V) (p : P) (v : V) :
    (m.set p v).answers = m.answers := rfl

@[simp] theorem Memory.erase_answers (m : Memory P V) (p : P) :
    (m.erase p).answers = m.answers := rfl

@[simp] theorem Memory.set_set (m : Memory P V) (p : P) (v w : V) :
    (m.set p v).set p w = m.set p w := by
  simp only [Memory.set, Function.update_idem]

theorem write_ok {m : Memory P V} {p : P} {v₀ : V} (hp : m.cells p = some v₀) (v : V) :
    write (some p) v m = (.ok (), m.set p v) := by
  simp only [write, hp]

@[simp] theorem write_null (m : Memory P V) (v : V) :
    write (none : Option P) v m = (.error .nullDereference, m) := rfl

theorem free_ok {m : Memory P V} {p : P} {v : V} (hp : m.cells p = some v) :
    free (some p) m = (.ok (), m.erase p) := by
  simp only [free, hp]

@[simp] theorem free_null (m : Memory P V) : free (none : Option P) m = (.ok (), m) := rfl

/-- **An allocation** is refused, or gives a block at an address that was not in use. -/
theorem malloc_cases (A : Allocator P V) (v : V) (m : Memory P V) :
    (∃ m', malloc A v m = (.ok none, m') ∧ m'.cells = m.cells ∧ Answered [false] m m') ∨
      ∃ p m', malloc A v m = (.ok (some p), m') ∧ m.cells p = none ∧
        m'.cells = Function.update m.cells p (some v) ∧ Answered [true] m m' := by
  unfold malloc
  cases h : A.answer m.answers.length m.cells with
  | none => exact .inl ⟨_, rfl, rfl, rfl⟩
  | some p => exact .inr ⟨p, _, rfl, A.fresh _ _ p h, rfl, rfl⟩

end Cells

/-! ## The answers of the allocator -/

section Answers

variable {m m' m'' : Memory P V} {used used' : List Bool}

theorem Answered.of_eq (h : m'.answers = m.answers) : Answered [] m m' := by
  rw [Answered, h, List.append_nil]

theorem Answered.trans (h : Answered used m m') (h' : Answered used' m' m'') :
    Answered (used ++ used') m m'' := by
  rw [Answered, h', h, List.append_assoc]

/-- What is done before and after without the allocator does not matter. -/
theorem Answered.congr (h : Answered used m m') {n n' : Memory P V} (hn : n.answers = m.answers)
    (hn' : n'.answers = m'.answers) : Answered used n n' := by
  rw [Answered, hn', hn, h]

theorem Answered.refusals (h : Answered used m m') :
    m'.refusals = m.refusals + used.count false := by
  rw [Memory.refusals, h, List.count_append]
  rfl

theorem Answered.refusals_eq_iff (h : Answered used m m') :
    m'.refusals = m.refusals ↔ false ∉ used := by
  rw [h.refusals, ← List.count_eq_zero]
  omega

theorem Answered.refusals_lt_iff (h : Answered used m m') :
    m.refusals < m'.refusals ↔ false ∈ used := by
  rw [h.refusals, ← List.count_pos_iff]
  omega

end Answers

/-! ## What a program ends in -/

/-- The program ends in `Q`, or stops in `E`. -/
def Ends (x : Prog P V α) (m : Memory P V) (Q : α → Memory P V → Prop)
    (E : Fault → Memory P V → Prop) : Prop :=
  match x m with
  | (.ok a, m') => Q a m'
  | (.error fault, m') => E fault m'

section Ends

variable {Q Q' : α → Memory P V → Prop} {E E' : Fault → Memory P V → Prop} {m m' : Memory P V}

theorem ends_of_ok {x : Prog P V α} {a : α} (h : x m = (.ok a, m')) (hQ : Q a m') :
    Ends x m Q E := by
  rw [Ends, h]
  exact hQ

theorem ends_of_error {x : Prog P V α} {fault : Fault} (h : x m = (.error fault, m'))
    (hE : E fault m') : Ends x m Q E := by
  rw [Ends, h]
  exact hE

theorem Ends.mono {x : Prog P V α} (h : Ends x m Q E) (hQ : ∀ a m', Q a m' → Q' a m')
    (hE : ∀ fault m', E fault m' → E' fault m') : Ends x m Q' E' := by
  unfold Ends at h ⊢
  split at h
  · exact hQ _ _ h
  · exact hE _ _ h

/-- What cannot stop at a fault runs to its end. -/
theorem Ends.exists_ok {x : Prog P V α} (h : Ends x m Q fun _ _ => False) :
    ∃ a m', x m = (.ok a, m') ∧ Q a m' := by
  unfold Ends at h
  split at h
  · next a m' hrun => exact ⟨a, m', hrun, h⟩
  · exact h.elim

/-- **One part after the other.** -/
theorem Ends.bind {R : γ → Memory P V → Prop} {x : Prog P V α} {f : α → Prog P V γ}
    (h : Ends x m Q E) (hf : ∀ a m', Q a m' → Ends (f a) m' R E) : Ends (x >>= f) m R E := by
  unfold Ends at h
  split at h
  · next a m' heq =>
      rw [Ends, bind_ok heq]
      exact hf a m' h
  · next fault m' heq => exact ends_of_error (bind_error heq) h

/-- A part of which the outcome is known. -/
theorem ends_bind_ok {R : γ → Memory P V → Prop} {x : Prog P V α} {f : α → Prog P V γ} {a : α}
    (h : x m = (.ok a, m')) (hf : Ends (f a) m' R E) : Ends (x >>= f) m R E := by
  rw [Ends, bind_ok h]
  exact hf

/-- An allocation: what comes after is to end well either way. -/
theorem ends_bind_malloc [DecidableEq P] (A : Allocator P V) (v : V) {f : Option P → Prog P V α}
    (hrefused : ∀ m', m'.cells = m.cells → Answered [false] m m' → Ends (f none) m' Q E)
    (hgiven : ∀ p m', m.cells p = none → m'.cells = Function.update m.cells p (some v) →
      Answered [true] m m' → Ends (f (some p)) m' Q E) :
    Ends (malloc A v >>= f) m Q E := by
  rcases malloc_cases A v m with ⟨m', hrun, hcells, hused⟩ | ⟨p, m', hrun, hfree, hcells, hused⟩
  · exact ends_bind_ok hrun (hrefused m' hcells hused)
  · exact ends_bind_ok hrun (hgiven p m' hfree hcells hused)

/-- A call that gives a block: what comes after is to end well with it, where the call fails,
and where there is no memory. -/
theorem ends_bind_allocate [DecidableEq P] (A : Allocator P V) (succeeds : Bool) (v : V)
    {f : Option P → Prog P V α}
    (hfailed : succeeds = false → Ends (f none) m Q E)
    (hrefused : succeeds = true → ∀ m', m'.cells = m.cells → Answered [false] m m' →
      Ends (f none) m' Q E)
    (hgiven : succeeds = true → ∀ p m', m.cells p = none →
      m'.cells = Function.update m.cells p (some v) → Answered [true] m m' →
      Ends (f (some p)) m' Q E) :
    Ends (allocate A succeeds v >>= f) m Q E := by
  cases succeeds with
  | false => exact ends_bind_ok rfl (hfailed rfl)
  | true => exact ends_bind_malloc A v (hrefused rfl) (hgiven rfl)

end Ends

/-! ## Serving calls -/

section Serve

variable {τ ι σ ω : Type}

/-- The calls, one after the other, with what the caller keeps between them in its variables. -/
def serveWith (call : τ → ι → Prog P V (τ × ω)) : τ → List ι → Prog P V (τ × List ω)
  | t, [] => pure (t, [])
  | t, i :: is => do
      let (t', o) ← call t i
      let (t'', os) ← serveWith call t' is
      pure (t'', o :: os)

/-- The calls, one after the other. -/
def serve (call : ι → Prog P V ω) (is : List ι) : Prog P V (List ω) := do
  let (_, os) ← serveWith (fun (_ : Unit) i => do let o ← call i; pure ((), o)) () is
  pure os

/-- Calls that leave the memory alone. -/
theorem serve_const {call : ι → Prog P V ω} {f : ι → ω} {m : Memory P V}
    (hcall : ∀ i, call i m = (.ok (f i), m)) (is : List ι) :
    serve call is m = (.ok (is.map f), m) := by
  have hserve : serveWith (fun (_ : Unit) i => do let o ← call i; pure ((), o)) () is m =
      (.ok ((), is.map f), m) := by
    induction is with
    | nil => rfl
    | cons i is ih =>
        have hi : (do let o ← call i; pure ((), o) : Prog P V (Unit × ω)) m =
            (.ok ((), f i), m) := by
          rw [bind_ok (hcall i)]
          rfl
        rw [serveWith, bind_ok hi]
        dsimp only
        rw [bind_ok ih]
        rfl
  rw [serve, bind_ok hserve]
  rfl

/-- **Refinement, from one call to a sequence of calls.**  `Rep n s m` says that the memory
represents the state `s`, with room for `n` more blocks; a call `i` needs `w i`.  Where each
call does what a step does, or stops in `E`, or where the step is stuck, in `S`, so does the
sequence of calls what a run does. -/
theorem serve_ends (call : ι → Prog P V ω) (step : σ → ι → Option (σ × ω)) (w : ι → ℕ)
    (Rep : ℕ → σ → Memory P V → Prop) {E S : Fault → Memory P V → Prop}
    (hcall : ∀ n s m i, Rep (w i + n) s m → Ends (call i) m
      (fun o m' => ∃ s', step s i = some (s', o) ∧ Rep n s' m')
      (fun fault m' => E fault m' ∨ (S fault m' ∧ step s i = none)))
    (is : List ι) {s : σ} {m : Memory P V} (hrep : Rep (is.map w).sum s m) :
    Ends (serve call is) m
      (fun os m' => ∃ s', Runs.run step s is = some (s', os) ∧ Rep 0 s' m')
      (fun fault m' => E fault m' ∨ (S fault m' ∧ Runs.run step s is = none)) := by
  have hserve : Ends (serveWith (fun (_ : Unit) i => do let o ← call i; pure ((), o)) () is) m
      (fun r m' => ∃ s', Runs.run step s is = some (s', r.2) ∧ Rep 0 s' m')
      (fun fault m' => E fault m' ∨ (S fault m' ∧ Runs.run step s is = none)) := by
    induction is generalizing s m with
    | nil => exact ends_of_ok rfl ⟨s, rfl, hrep⟩
    | cons i is ih =>
        rw [List.map_cons, List.sum_cons] at hrep
        have hone : Ends (do let o ← call i; pure ((), o)) m
            (fun r m' => ∃ s', step s i = some (s', r.2) ∧ Rep (is.map w).sum s' m')
            (fun fault m' => E fault m' ∨ (S fault m' ∧ step s i = none)) :=
          Ends.bind (hcall _ s m i hrep) fun o m₁ hQ => ends_of_ok rfl hQ
        refine Ends.bind (hone.mono (fun _ _ hQ => hQ) fun fault m' hE =>
          hE.imp_right fun hS => ⟨hS.1, ?_⟩) ?_
        · rw [Runs.run, hS.2]
        · rintro ⟨_, o⟩ m₁ ⟨s₁, hstep, hrep₁⟩
          refine Ends.bind ((ih hrep₁).mono (fun _ _ hQ => hQ) fun fault m' hE =>
            hE.imp_right fun hS => ⟨hS.1, ?_⟩) ?_
          · rw [Runs.run, hstep]
            simp only [hS.2]
          · rintro ⟨_, os⟩ m' ⟨s', hrun, hrep'⟩
            exact ends_of_ok rfl ⟨s', Runs.run_cons_eq_some.mpr ⟨s₁, o, os, hstep, hrun, rfl⟩, hrep'⟩
  exact Ends.bind hserve fun r m' hQ => ends_of_ok rfl hQ

/-- **The same for steps that are given the answers of the allocator.**  A step takes them from
the front of a list; between the calls the caller keeps `t` in its variables.  The answers
that the sequence of calls was given are those that the run takes. -/
theorem serveWith_ends (call : τ → ι → Prog P V (τ × ω))
    (step : σ × List Bool → ι → Option ((σ × List Bool) × ω)) (w : ι → ℕ)
    (Rep : ℕ → τ → σ → Memory P V → Prop) {E S : Fault → Prop}
    (hcall : ∀ n t s m i, Rep (w i + n) t s m → Ends (call t i) m
      (fun r m' => ∃ used s', Answered used m m' ∧
        (∀ later, step (s, used ++ later) i = some ((s', later), r.2)) ∧ Rep n r.1 s' m')
      (fun fault m' => ∃ used, Answered used m m' ∧
        ((E fault ∧ false ∈ used) ∨ (S fault ∧ ∀ later, step (s, used ++ later) i = none))))
    (is : List ι) {t : τ} {s : σ} {m : Memory P V} (hrep : Rep (is.map w).sum t s m) :
    Ends (serveWith call t is) m
      (fun r m' => ∃ used s', Answered used m m' ∧
        (∀ later, Runs.run step (s, used ++ later) is = some ((s', later), r.2)) ∧ Rep 0 r.1 s' m')
      (fun fault m' => ∃ used, Answered used m m' ∧
        ((E fault ∧ false ∈ used) ∨
          (S fault ∧ ∀ later, Runs.run step (s, used ++ later) is = none))) := by
  induction is generalizing t s m with
  | nil => exact ends_of_ok rfl ⟨[], s, .of_eq rfl, fun _ => rfl, hrep⟩
  | cons i is ih =>
      rw [List.map_cons, List.sum_cons] at hrep
      refine Ends.bind ((hcall _ t s m i hrep).mono (fun _ _ hQ => hQ) ?_) ?_
      · rintro fault m' ⟨used, hused, hE | ⟨hS, hstep⟩⟩
        · exact ⟨used, hused, .inl hE⟩
        · exact ⟨used, hused, .inr ⟨hS, fun later => by rw [Runs.run, hstep later]⟩⟩
      · rintro ⟨t₁, o⟩ m₁ ⟨used₁, s₁, hused₁, hstep, hrep₁⟩
        refine Ends.bind ((ih hrep₁).mono (fun _ _ hQ => hQ) ?_) ?_
        · rintro fault m' ⟨used, hused, hE⟩
          refine ⟨used₁ ++ used, hused₁.trans hused, hE.imp ?_ ?_⟩
          · exact fun h => ⟨h.1, List.mem_append_right _ h.2⟩
          · refine fun h => ⟨h.1, fun later => ?_⟩
            rw [List.append_assoc, Runs.run, hstep]
            simp only [h.2 later]
        · rintro ⟨t', os⟩ m' ⟨used, s', hused, hrun, hrep'⟩
          refine ends_of_ok rfl ⟨used₁ ++ used, s', hused₁.trans hused, fun later => ?_, hrep'⟩
          rw [List.append_assoc]
          exact Runs.run_cons_eq_some.mpr ⟨_, o, os, hstep _, hrun later, rfl⟩

end Serve

/-! ## Ownership -/

/-- The memory is `frame` with blocks at the addresses `as`, which are distinct and not in
use in `frame`. -/
structure Owns (frame cells : P → Option V) (as : List P) : Prop where
  nodup : as.Nodup
  new : ∀ a ∈ as, frame a = none
  there : ∀ a ∈ as, ∃ v, cells a = some v
  others : ∀ a, a ∉ as → cells a = frame a

variable {frame cells : P → Option V} {as bs : List P}

theorem owns_nil (cells : P → Option V) : Owns cells cells [] :=
  ⟨List.nodup_nil, by simp, by simp, fun _ _ => rfl⟩

/-- **Nothing is left** of what was allocated. -/
theorem Owns.eq_of_nil (h : Owns frame cells []) : cells = frame :=
  funext fun a => h.others a List.not_mem_nil

theorem Owns.perm (h : Owns frame cells as) (hp : as.Perm bs) : Owns frame cells bs :=
  ⟨hp.nodup_iff.mp h.nodup, fun a ha => h.new a (hp.mem_iff.mpr ha),
    fun a ha => h.there a (hp.mem_iff.mpr ha), fun a ha => h.others a (mt hp.mem_iff.mp ha)⟩

/-- Blocks that were allocated on top of others. -/
theorem Owns.trans {cells' : P → Option V} (h : Owns frame cells as) (h' : Owns cells cells' bs) :
    Owns frame cells' (bs ++ as) := by
  have hdisjoint : ∀ a ∈ bs, a ∉ as := by
    intro a hb ha
    obtain ⟨v, hv⟩ := h.there a ha
    rw [h'.new a hb] at hv
    cases hv
  refine ⟨List.nodup_append.mpr ⟨h'.nodup, h.nodup, ?_⟩, ?_, ?_, ?_⟩
  · rintro a hb b ha rfl
    exact hdisjoint a hb ha
  · intro a ha
    rcases List.mem_append.mp ha with hb | ha
    · rw [← h.others a (hdisjoint a hb), h'.new a hb]
    · exact h.new a ha
  · intro a ha
    by_cases hb : a ∈ bs
    · exact h'.there a hb
    · rw [h'.others a hb]
      exact h.there a ((List.mem_append.mp ha).resolve_left hb)
  · intro a ha
    rw [List.mem_append, not_or] at ha
    rw [h'.others a ha.1, h.others a ha.2]

/-- Only the contents of the blocks change. -/
theorem Owns.overwrite (h : Owns frame cells as) {cells' : P → Option V}
    (hthere : ∀ a ∈ as, ∃ v, cells' a = some v) (hothers : ∀ a, a ∉ as → cells' a = cells a) :
    Owns frame cells' as :=
  ⟨h.nodup, h.new, hthere, fun a ha => (hothers a ha).trans (h.others a ha)⟩

/-- An address that is not in use is none of the blocks. -/
theorem Owns.not_mem (h : Owns frame cells as) {p : P} (hp : cells p = none) : p ∉ as := by
  intro hmem
  obtain ⟨v, hv⟩ := h.there p hmem
  rw [hp] at hv
  cases hv

section Cells

variable [DecidableEq P]

/-- A fresh block. -/
theorem Owns.alloc (h : Owns frame cells as) {p : P} (hp : cells p = none) (v : V) :
    Owns frame (Function.update cells p (some v)) (p :: as) := by
  have hnot := h.not_mem hp
  refine ⟨List.nodup_cons.mpr ⟨hnot, h.nodup⟩, ?_, ?_, ?_⟩
  · refine List.forall_mem_cons.mpr ⟨?_, h.new⟩
    rw [← h.others p hnot, hp]
  · intro a ha
    by_cases heq : a = p
    · subst heq
      exact ⟨v, Function.update_self _ _ _⟩
    · rw [Function.update_of_ne heq]
      exact h.there a ((List.mem_cons.mp ha).resolve_left heq)
  · intro a ha
    rw [List.mem_cons, not_or] at ha
    rw [Function.update_of_ne ha.1, h.others a ha.2]

/-- A block that is given is owned beside the others, which stay as they are. -/
theorem Owns.given (h : Owns frame cells as) {cells' : P → Option V} {p : P} {v : V}
    (hp : cells p = none) (hcells : cells' = Function.update cells p (some v)) :
    Owns frame cells' (p :: as) ∧ cells' p = some v ∧
      ∀ q w, cells q = some w → q ≠ p ∧ cells' q = some w := by
  subst hcells
  refine ⟨h.alloc hp v, Function.update_self _ _ _, fun q w hq => ?_⟩
  have hne : q ≠ p := by
    rintro rfl
    rw [hp] at hq
    cases hq
  exact ⟨hne, (Function.update_of_ne hne _ _).trans hq⟩

/-- A block is written. -/
theorem Owns.set (h : Owns frame cells as) {p : P} (hp : p ∈ as) (v : V) :
    Owns frame (Function.update cells p (some v)) as := by
  refine ⟨h.nodup, h.new, ?_, ?_⟩
  · intro a ha
    by_cases heq : a = p
    · subst heq
      exact ⟨v, Function.update_self _ _ _⟩
    · rw [Function.update_of_ne heq]
      exact h.there a ha
  · intro a ha
    have hne : a ≠ p := by
      rintro rfl
      exact ha hp
    rw [Function.update_of_ne hne, h.others a ha]

/-- What happens outside the blocks happens to the frame. -/
theorem Owns.outside (h : Owns frame cells as) {p : P} (hp : p ∉ as) (v : Option V) :
    Owns (Function.update frame p v) (Function.update cells p v) as := by
  have hne : ∀ a ∈ as, a ≠ p := by
    rintro a ha rfl
    exact hp ha
  refine ⟨h.nodup, ?_, ?_, ?_⟩
  · intro a ha
    rw [Function.update_of_ne (hne a ha), h.new a ha]
  · intro a ha
    rw [Function.update_of_ne (hne a ha)]
    exact h.there a ha
  · intro a ha
    by_cases heq : a = p
    · subst heq
      rw [Function.update_self, Function.update_self]
    · rw [Function.update_of_ne heq, Function.update_of_ne heq, h.others a ha]

/-- A block is freed. -/
theorem Owns.free {p : P} (h : Owns frame cells (p :: as)) :
    Owns frame (Function.update cells p none) as := by
  obtain ⟨hnot, hnodup⟩ := List.nodup_cons.mp h.nodup
  refine ⟨hnodup, fun a ha => h.new a (List.mem_cons_of_mem p ha), ?_, ?_⟩
  · intro a ha
    have hne : a ≠ p := by
      rintro rfl
      exact hnot ha
    rw [Function.update_of_ne hne]
    exact h.there a (List.mem_cons_of_mem p ha)
  · intro a ha
    by_cases heq : a = p
    · subst heq
      rw [Function.update_self, h.new a List.mem_cons_self]
    · rw [Function.update_of_ne heq]
      exact h.others a (by simp [heq, ha])

end Cells

end Blocks

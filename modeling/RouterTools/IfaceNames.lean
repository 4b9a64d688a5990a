/-
# Interface names stay unique

`list_add` puts in whatever it is given; that no name occurs twice is due to the two
tests in `parse_data_buffer`.  Over runs of `parse_data_buffer`, `list_delete` and
`list_search` from the empty list, whatever allocations fail, the names are non-empty and
pairwise distinct, and search and deletion answer exactly for the names in the list.
-/
import Mathlib.Data.List.Nodup
import RouterTools.IfaceList
import RouterTools.Runs

namespace Iface

open CString IfaceParser

/-! ## Runs -/

/-- A call on the list. -/
inductive Call where
  | parse (dataBuffer : Option CString)
  | delete (deleteName : Option CString)
  | search (searchName : Option CString)

/-- What a call returns. -/
inductive Answer where
  | parsed
  | deleted (found : Bool)
  | found (node : Option Node)

/-- The list and the allocations to come. -/
structure ListState where
  head : List Node
  heap : Alloc

/-- One call. -/
def step (s : ListState) : Call → Option (ListState × Answer)
  | .parse dataBuffer =>
      let (head, heap) := parseDataBuffer s.head dataBuffer s.heap
      some (⟨head, heap⟩, .parsed)
  | .delete deleteName =>
      let (head, found) := listDelete s.head deleteName
      some ({ s with head }, .deleted found)
  | .search searchName => some (s, .found (listSearch s.head searchName))

theorem step_parse (s : ListState) (dataBuffer : Option CString) :
    step s (.parse dataBuffer) =
      some (⟨(parseDataBuffer s.head dataBuffer s.heap).1,
        (parseDataBuffer s.head dataBuffer s.heap).2⟩, .parsed) := rfl

/-! ## The invariant -/

/-- The names in the list are non-empty and pairwise distinct. -/
structure NamesUnique (head : List Node) : Prop where
  nonempty : [] ∉ names head
  distinct : (names head).Nodup

theorem NamesUnique.nil : NamesUnique [] := ⟨List.not_mem_nil, List.nodup_nil⟩

/-- A new name may be added at the end. -/
theorem NamesUnique.concat {head : List Node} (h : NamesUnique head) {node : Node}
    (hne : node.name ≠ []) (hnew : node.name ∉ names head) : NamesUnique (head ++ [node]) where
  nonempty := by
    rw [names, List.map_append, List.mem_append, not_or]
    refine ⟨h.nonempty, ?_⟩
    simpa using hne.symm
  distinct := by
    rw [names, List.map_append, List.nodup_append]
    refine ⟨h.distinct, List.nodup_singleton _, ?_⟩
    intro a ha b hb
    simp only [List.map_cons, List.map_nil, List.mem_singleton] at hb
    rw [hb]
    exact fun heq => hnew (heq ▸ ha)

/-- Any node may be taken out. -/
theorem NamesUnique.remove {l r : List Node} {node : Node} (h : NamesUnique (l ++ node :: r)) :
    NamesUnique (l ++ r) where
  nonempty := by
    have hne := h.nonempty
    simp only [names, List.map_append, List.map_cons, List.mem_append, List.mem_cons] at hne ⊢
    tauto
  distinct := by
    have hdistinct := h.distinct
    simp only [names, List.map_append, List.map_cons] at hdistinct ⊢
    exact (List.nodup_middle.mp hdistinct).of_cons

/-- The name of a node that was taken out is gone. -/
theorem NamesUnique.not_mem_remove {l r : List Node} {node : Node}
    (h : NamesUnique (l ++ node :: r)) : node.name ∉ names (l ++ r) := by
  have hdistinct := h.distinct
  simp only [names, List.map_append, List.map_cons] at hdistinct ⊢
  exact (List.nodup_cons.mp (List.nodup_middle.mp hdistinct)).1

/-! ## What a parse does to the names -/

/-- The list grew at its end, by nodes with new names only. -/
def Grows (head head' : List Node) : Prop :=
  (∃ added, head' = head ++ added) ∧ (NamesUnique head → NamesUnique head')

theorem Grows.refl (head : List Node) : Grows head head :=
  ⟨⟨[], (List.append_nil head).symm⟩, id⟩

theorem Grows.trans {head₁ head₂ head₃ : List Node} (h₁₂ : Grows head₁ head₂)
    (h₂₃ : Grows head₂ head₃) : Grows head₁ head₃ := by
  obtain ⟨⟨a, rfl⟩, hu₁⟩ := h₁₂
  obtain ⟨⟨b, rfl⟩, hu₂⟩ := h₂₃
  exact ⟨⟨a ++ b, List.append_assoc head₁ a b⟩, fun h => hu₂ (hu₁ h)⟩

/-- Both places where the parser adds a node test its name first. -/
theorem flush_grows (head : List Node) (bufs : Buffers) (heap : Alloc) :
    Grows head (flush head bufs heap).1 := by
  rcases flush_cases head bufs heap with h | ⟨h, hne, hnew⟩
  · rw [h]
    exact Grows.refl head
  · rw [h]
    exact ⟨⟨[bufs], rfl⟩, fun hu => hu.concat hne hnew⟩

theorem parseLine_grows (s : ParseState) (line : CString) :
    Grows s.head (parseLine s line).head := by
  by_cases h : isHeader line = true
  · rw [parseLine_header h]
    exact flush_grows s.head s.bufs s.heap
  · rw [parseLine_not_header (by simpa using h)]
    exact Grows.refl s.head

theorem parseLines_grows (lines : List CString) :
    ∀ s : ParseState, Grows s.head (lines.foldl parseLine s).head := by
  induction lines with
  | nil => exact fun s => Grows.refl s.head
  | cons line lines ih => exact fun s => (parseLine_grows s line).trans (ih (parseLine s line))

/-- **A parse** adds nodes at the end, and keeps names unique. -/
theorem parseDataBuffer_grows (head : List Node) (dataBuffer : Option CString) (heap : Alloc) :
    Grows head (parseDataBuffer head dataBuffer heap).1 := by
  cases dataBuffer with
  | none => exact Grows.refl head
  | some data =>
      rw [parseDataBuffer]
      obtain ⟨ok, heap'⟩ := alloc heap
      cases ok with
      | false => exact Grows.refl head
      | true =>
          exact (parseLines_grows _ ⟨head, emptyBuffers, heap'⟩).trans (flush_grows _ _ _)

/-! ## One call -/

/-- A deletion keeps names unique. -/
theorem listDelete_namesUnique {head : List Node} (h : NamesUnique head)
    (deleteName : Option CString) : NamesUnique (listDelete head deleteName).1 := by
  cases deleteName with
  | none =>
      rw [listDelete_none]
      exact h
  | some name =>
      rcases listDelete_cases head name with ⟨l, node, r, rfl, -, -, heq⟩ | ⟨-, heq⟩
      · rw [heq]
        exact h.remove
      · rw [heq]
        exact h

/-- **Every call keeps names unique.** -/
theorem step_namesUnique (s : ListState) (call : Call) (s' : ListState) (answer : Answer)
    (h : NamesUnique s.head) (hstep : step s call = some (s', answer)) : NamesUnique s'.head := by
  cases call with
  | parse dataBuffer =>
      rw [step_parse] at hstep
      cases hstep
      exact (parseDataBuffer_grows s.head dataBuffer s.heap).2 h
  | delete deleteName =>
      cases hstep
      exact listDelete_namesUnique h deleteName
  | search searchName =>
      cases hstep
      exact h

/-- Every call returns. -/
theorem step_returns (s : ListState) (call : Call) : ∃ s' answer, step s call = some (s', answer) := by
  cases call with
  | parse dataBuffer => exact ⟨_, _, rfl⟩
  | delete deleteName => exact ⟨_, _, rfl⟩
  | search searchName => exact ⟨_, _, rfl⟩

/-- A deletion that leaves as many nodes leaves the same nodes. -/
theorem listDelete_eq_of_length {head : List Node} {deleteName : Option CString}
    (h : (listDelete head deleteName).1.length = head.length) :
    (listDelete head deleteName).1 = head := by
  cases deleteName with
  | none => rw [listDelete_none]
  | some name =>
      rcases listDelete_cases head name with ⟨l, node, r, rfl, -, -, heq⟩ | ⟨-, heq⟩
      · rw [heq] at h
        simp only [List.length_append, List.length_cons] at h
        omega
      · rw [heq]

/-- **A call that adds or removes nothing leaves the list as it was.** -/
theorem step_eq_of_length {s s' : ListState} {call : Call} {answer : Answer}
    (hstep : step s call = some (s', answer)) (hlen : s'.head.length = s.head.length) :
    s'.head = s.head := by
  cases call with
  | parse dataBuffer =>
      rw [step_parse] at hstep
      cases hstep
      obtain ⟨added, hadded⟩ := (parseDataBuffer_grows s.head dataBuffer s.heap).1
      dsimp only at hlen ⊢
      rw [hadded, List.length_append] at hlen
      have hnil : added = [] := List.eq_nil_of_length_eq_zero (by omega)
      rw [hadded, hnil, List.append_nil]
  | delete deleteName =>
      cases hstep
      exact listDelete_eq_of_length hlen
  | search searchName =>
      cases hstep
      rfl

/-! ## Search and deletion -/

/-- `list_search` finds a node of a name exactly when there is one. -/
def SearchExact (head : List Node) : Prop :=
  ∀ name, (∀ node, listSearch head (some name) = some node → node ∈ head ∧ node.name = name) ∧
    ((listSearch head (some name)).isSome ↔ name ∈ names head)

/-- `list_delete` answers whether the name is there, takes out its node and no other, and
a search for the name right after it finds nothing. -/
def DeleteExact (head : List Node) : Prop :=
  ∀ name,
    ((listDelete head (some name)).2 = true ↔ name ∈ names head) ∧
    ((listDelete head (some name)).2 = true → ∃ l node r, head = l ++ node :: r ∧
      node.name = name ∧ (listDelete head (some name)).1 = l ++ r) ∧
    ((listDelete head (some name)).2 = false → (listDelete head (some name)).1 = head) ∧
    listSearch (listDelete head (some name)).1 (some name) = none

theorem listSearch_eq_none_iff {head : List Node} {name : CString} :
    listSearch head (some name) = none ↔ name ∉ names head := by
  rw [listSearch_eq_find, List.find?_eq_none]
  simp [names]

theorem searchExact (head : List Node) : SearchExact head := by
  intro name
  constructor
  · intro node hfound
    rw [listSearch_eq_find] at hfound
    exact ⟨List.mem_of_find?_eq_some hfound, by simpa using List.find?_some hfound⟩
  · rw [← not_iff_not, Bool.not_eq_true, Option.isSome_eq_false_iff, Option.isNone_iff_eq_none]
    exact listSearch_eq_none_iff

theorem NamesUnique.deleteExact {head : List Node} (h : NamesUnique head) : DeleteExact head := by
  intro name
  rcases listDelete_cases head name with ⟨l, node, r, rfl, hnode, -, heq⟩ | ⟨hnot, heq⟩
  · have hmem : name ∈ names (l ++ node :: r) := by simp [names, ← hnode]
    have hgone : listSearch (l ++ r) (some name) = none :=
      listSearch_eq_none_iff.mpr (hnode ▸ h.not_mem_remove)
    rw [heq]
    exact ⟨⟨fun _ => hmem, fun _ => rfl⟩, fun _ => ⟨l, node, r, rfl, hnode, rfl⟩,
      fun hfalse => absurd hfalse Bool.noConfusion, hgone⟩
  · rw [heq]
    exact ⟨⟨fun htrue => absurd htrue Bool.noConfusion, fun hmem => absurd hmem hnot⟩,
      fun htrue => absurd htrue Bool.noConfusion, fun _ => rfl, listSearch_eq_none_iff.mpr hnot⟩

/-- **Interface names stay unique.**  Every run of calls from the empty list is carried
out, with any allocations failing, and in the state it reaches: the names are non-empty
and pairwise distinct, search and deletion are exact, and a further call that adds or
removes no node leaves the list as it is. -/
theorem interface_names_unique (heap : Alloc) (calls : List Call) :
    ∃ s answers, Runs.run step ⟨[], heap⟩ calls = some (s, answers) ∧ NamesUnique s.head ∧
      SearchExact s.head ∧ DeleteExact s.head ∧
      ∀ call s' answer, step s call = some (s', answer) → s'.head.length = s.head.length →
        s'.head = s.head := by
  obtain ⟨s, answers, hrun⟩ := Runs.run_total (I := fun _ : ListState => True) (fun _ => True)
    (fun s call _ _ => by
      obtain ⟨s', answer, hstep⟩ := step_returns s call
      exact ⟨s', answer, hstep, trivial⟩) calls ⟨[], heap⟩ trivial (fun _ _ => trivial)
  have hunique : NamesUnique s.head :=
    Runs.run_invariant (I := fun s : ListState => NamesUnique s.head) step_namesUnique calls
      NamesUnique.nil hrun
  exact ⟨s, answers, hrun, hunique, searchExact s.head, hunique.deleteExact,
    fun call s' answer hstep hlen => step_eq_of_length hstep hlen⟩

end Iface

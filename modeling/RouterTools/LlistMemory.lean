/-
# The linked list of `link_list.c` in memory

The functions once more, on blocks: the head pointer that `llist_create` allocates, and the
nodes.  None of them asks whether `malloc` gave NULL.  `Represents` connects the blocks with
the chain of `Llist`, and each call does to the chain what `Llist.exec` says, or stops at a
NULL pointer (`callOf_ends`).

`llist_program_keeps_memory` is about whole programs that create a list, use it, print it
and free it: no block is used after it was freed, none is freed twice and none is left, and
what stops such a program is a refused allocation or the run of `Llist` that is stuck.
-/
import Mathlib.Data.List.TakeWhile
import RouterTools.LinkedBlocks
import RouterTools.Llist

namespace LlistMemory

open Blocks

variable {P α : Type} [DecidableEq P]

/-! ## The functions of the source -/

/-- What is allocated: the pointer `*list`, and `struct node`. -/
inductive Block (P α : Type) where
  | head (first : Option P)
  | node (data : Option α) (next : Option P)

/-- `struct node` in its block. -/
def nodes : Layout P (Block P α) (Option α) where
  node data next := .node data next
  asNode
    | .node data next => some (data, next)
    | .head _ => none
  asNode_node _ _ := rfl

/-- The block of an `llist`, read as such. -/
def Block.asHead : Block P α → Option (Option P)
  | .head first => some first
  | .node _ _ => none

/-- The allocator, what a fresh block happens to hold, and the budget of the loops. -/
structure Machine (P α : Type) where
  allocator : Allocator P (Block P α)
  junkData : Option α
  junkPointer : Option P
  fuel : ℕ

variable (M : Machine P α)

/-- `malloc(sizeof (llist))`. -/
def mallocHead : Prog P (Block P α) (Option P) := malloc M.allocator (.head M.junkPointer)

/-- `malloc(sizeof (struct node))`. -/
def mallocNode : Prog P (Block P α) (Option P) :=
  malloc M.allocator (.node M.junkData M.junkPointer)

/-- `llist_create`. -/
def llistCreate (newData : Option α) : Prog P (Block P α) (Option P) := do
  let newList ← mallocHead M
  let block ← mallocNode M
  write newList (.head block)
  let newNode ← read Block.asHead newList
  nodes.modify newNode fun _ => newData
  nodes.setNext newNode none
  return newList

/-- `llist_free`. -/
def llistFree (list : Option P) : Prog P (Block P α) Unit := do
  let curr ← read Block.asHead list
  disposeAll nodes (fun _ => pure ()) M.fuel curr
  free list

/-- The loop condition of `llist_add_inorder`, at a node:
`curr->data != NULL && comp(curr->data, data) < 0`. -/
def goesOn (comp : Option α → Option α → ℤ) (data d : Option α) : Bool :=
  match d with
  | none => false
  | some d => decide (comp (some d) data < 0)

/-- `llist_add_inorder`. -/
def llistAddInorder (data : Option α) (list : Option P) (comp : Option α → Option α → ℤ) :
    Prog P (Block P α) ℤ := do
  if list.isNone then return 0
  let head ← read Block.asHead list
  if head.isNone then return 0
  let (d, _) ← nodes.get head
  match d with
  | none =>
      nodes.modify head fun _ => data
      return 1
  | some _ =>
      let newNode ← mallocNode M
      nodes.modify newNode fun _ => data
      let (prev, curr) ← walk nodes (fun d => pure (goesOn comp data d)) M.fuel none head
      nodes.setNext newNode curr
      relinkAt nodes (fun target => write list (.head target)) prev newNode
      return 1

/-- `llist_push`. -/
def llistPush (list : Option P) (data : Option α) : Prog P (Block P α) Unit := do
  let head ← read Block.asHead list
  let (d, _) ← nodes.get head
  match d with
  | none => nodes.modify head fun _ => data
  | some _ =>
      let newNode ← mallocNode M
      nodes.modify newNode fun _ => data
      nodes.setNext newNode head
      write list (.head newNode)

/-- `llist_pop`. -/
def llistPop (list : Option P) : Prog P (Block P α) (Option α) := do
  let head ← read Block.asHead list
  let (poppedData, next) ← nodes.get head
  match poppedData with
  | none => return none
  | some _ =>
      write list (.head next)
      free head
      return poppedData

/-- `llist_print`: what is written, where `print` is the caller's function. -/
def llistPrint (list : Option P) (print : Option α → List UInt8) :
    Prog P (Block P α) (List UInt8) := do
  let curr ← read Block.asHead list
  let data ← traverse nodes M.fuel curr
  return (data.flatMap fun d => print d ++ [32]) ++ [10]

/-- A call with non-NULL data. -/
def callOf (list : Option P) : Llist.Call α → Prog P (Block P α) (Llist.Answer α)
  | .push data => do
      llistPush M list (some data)
      return .pushed
  | .pop => do
      let data ← llistPop list
      return .popped data
  | .addInorder data comp => do
      let result ← llistAddInorder M (some data) list comp
      return .added result

/-- A program that creates a list, uses it, prints it and frees it. -/
def program (d : Option α) (calls : List (Llist.Call α)) (print : Option α → List UInt8) :
    Prog P (Block P α) (List (Llist.Answer α) × List UInt8) := do
  let list ← llistCreate M d
  let answers ← serve (callOf M list) calls
  let output ← llistPrint M list print
  llistFree M list
  return (answers, output)

/-! ## The list in memory -/

/-- The chain of data pointers. -/
def chain (ns : List (P × Option α)) : Llist.Chain α := ns.map Prod.snd

/-- The loop of `Llist` inserts where the search stops. -/
theorem insertLoop_eq (comp : Option α → Option α → ℤ) (data : Option α) (list : Llist.Chain α) :
    Llist.insertLoop comp data list =
      list.takeWhile (goesOn comp data) ++ data :: list.dropWhile (goesOn comp data) := by
  induction list with
  | nil => rfl
  | cons d next ih =>
      cases d with
      | none => rfl
      | some d =>
          rw [Llist.insertLoop]
          split_ifs with hlt
          · have hgo : goesOn comp data (some d) = true := decide_eq_true hlt
            rw [List.takeWhile_cons_of_pos hgo, List.dropWhile_cons_of_pos hgo, ih,
              List.cons_append]
          · have hstop : ¬ goesOn comp data (some d) = true := by simp [goesOn, hlt]
            rw [List.takeWhile_cons_of_neg hstop, List.dropWhile_cons_of_neg hstop]
            rfl

omit [DecidableEq P] in
/-- The chain of the list with the new node. -/
theorem chain_insert (comp : Option α → Option α → ℤ) (data : Option α)
    (ns : List (P × Option α)) (q : P) :
    chain (ns.takeWhile (fun x => goesOn comp data x.2) ++
        (q, data) :: ns.dropWhile fun x => goesOn comp data x.2) =
      Llist.insertLoop comp data (chain ns) := by
  rw [insertLoop_eq, chain, chain, List.map_append, List.map_cons, List.takeWhile_map,
    List.dropWhile_map]
  rfl

/-- The blocks of the list, besides which the memory is `frame`. -/
structure Represents (frame cells : P → Option (Block P α)) (list : P)
    (ns : List (P × Option α)) : Prop where
  head : cells list = some (.head (first ns none))
  linked : Segment nodes cells ns none
  owns : Owns frame cells (list :: addresses ns)

variable {M} {frame cells : P → Option (Block P α)} {m : Memory P (Block P α)} {list : P}
  {ns : List (P × Option α)} {β : Type} {Q : β → Memory P (Block P α) → Prop}
  {E : Fault → Memory P (Block P α) → Prop}

omit [DecidableEq P] in
theorem Represents.list_not_mem (h : Represents frame cells list ns) : list ∉ addresses ns :=
  (List.nodup_cons.mp h.owns.nodup).1

omit [DecidableEq P] in
theorem Represents.read (h : Represents frame m.cells list ns) :
    read Block.asHead (some list) m = (.ok (first ns none), m) :=
  read_ok h.head rfl

omit [DecidableEq P] in
theorem Represents.nodup (h : Represents frame cells list ns) : (addresses ns).Nodup :=
  (List.nodup_cons.mp h.owns.nodup).2

/-- The data of the first node are written. -/
theorem Represents.setFirst {p : P} {d : Option α} {l : List (P × Option α)}
    (h : Represents frame m.cells list ((p, d) :: l)) (data : Option α) :
    Represents frame (m.set p (nodes.node data (first l none))).cells list ((p, data) :: l) := by
  have hmem : p ∈ list :: addresses ((p, d) :: l) := by simp [addresses]
  have hne : list ≠ p := by
    rintro rfl
    exact h.list_not_mem (by simp [addresses])
  refine ⟨?_, ⟨Function.update_self _ _ _, ?_⟩, h.owns.set hmem _⟩
  · rw [Memory.set_cells, Function.update_of_ne hne, h.head]
    rfl
  · exact h.linked.2.update (List.nodup_cons.mp h.nodup).1 _

/-- **A new node is linked in** between two parts of the list. -/
theorem linkIn_ok (before after : List (P × Option α)) {q : P} {data : Option α}
    (h : Represents frame cells list (before ++ after)) (hq : cells q = none)
    (hcells : m.cells = Function.update cells q (some (nodes.node data (first after none)))) :
    ∃ m', relinkAt nodes (fun target => write (some list) (.head target)) (lastOr none before)
        (some q) m = (.ok (), m') ∧
      Represents frame m'.cells list (before ++ (q, data) :: after) ∧
      m'.refusals = m.refusals := by
  have hnot := h.owns.not_mem hq
  have hlist : list ≠ q := by
    rintro rfl
    exact hnot List.mem_cons_self
  have hout : q ∉ addresses (before ++ after) := fun hmem => hnot (List.mem_cons_of_mem _ hmem)
  have hq' : m.cells q = some (nodes.node data (first after none)) := by
    rw [hcells, Function.update_self]
  have hlinked : Segment nodes m.cells (before ++ after) none := by
    rw [hcells]
    exact h.linked.update hout _
  have howns : Owns frame m.cells (q :: list :: addresses (before ++ after)) := by
    rw [hcells]
    exact h.owns.alloc hq _
  obtain ⟨hbefore, hafter⟩ := segment_append.mp hlinked
  have hhead : m.cells list = some (.head (first before (first after none))) := by
    rw [hcells, Function.update_of_ne hlist, h.head, first_append]
  have hnodup := h.nodup
  have hlist' := h.list_not_mem
  rw [addresses_append] at hnodup hlist' hout
  rw [List.mem_append, not_or] at hlist' hout
  rw [List.nodup_append] at hnodup
  obtain ⟨a, v, hrun, ha, hhead', hbefore'⟩ := relinkAt_ok before
    (fun t => write_ok hhead (.head t)) hhead hlist'.1 hnodup.1 hbefore (some q)
  refine ⟨_, hrun, ⟨?_, segment_append.mpr ⟨hbefore', ?_⟩, ?_⟩, rfl⟩
  · rw [hhead', first_append]
    rfl
  · -- the new node and what comes after are not written
    refine Segment.update (l := (q, data) :: after) ⟨hq', hafter⟩ ?_ v
    rw [addresses_cons, List.mem_cons, not_or]
    rcases List.mem_cons.mp ha with rfl | ha
    · exact ⟨hlist, hlist'.2⟩
    · have hne : a ≠ q := by
        rintro rfl
        exact hout.1 ha
      exact ⟨hne, fun hin => hnodup.2.2 a ha a hin rfl⟩
  · have hmem : a ∈ q :: list :: addresses (before ++ after) := by
      rw [addresses_append]
      exact List.mem_cons_of_mem _ (List.mem_append_left (addresses after) ha)
    refine (howns.set hmem v).perm ?_
    rw [addresses_append, addresses_append, addresses_cons]
    exact (List.Perm.swap list q _).trans (List.Perm.cons list List.perm_middle.symm)

/-- What a function does to the list and gives back is what `r` says, or it stops at a NULL
pointer: where `r` does, or because a block was refused. -/
def Does (frame : P → Option (Block P α)) (list : P) (m : Memory P (Block P α))
    (x : Prog P (Block P α) β) (r : Except Llist.Fault (Llist.Chain α × β)) : Prop :=
  Ends x m
    (fun b m' => m'.refusals = m.refusals ∧
      ∃ ns', Represents frame m'.cells list ns' ∧ r = .ok (chain ns', b))
    (fun fault m' => fault = .nullDereference ∧
      (m.refusals < m'.refusals ∨ r = .error .nullDereference))

/-- A new node with its data. -/
theorem ends_newNode (data : Option α) {rest : Option P → Prog P (Block P α) β}
    (hrefused : ∀ m', m.refusals < m'.refusals → E .nullDereference m')
    (hrest : ∀ q m', m.cells q = none →
      m'.cells = Function.update m.cells q (some (.node data M.junkPointer)) →
      m'.refusals = m.refusals → Ends (rest (some q)) m' Q E) :
    Ends (do
      let newNode ← mallocNode M
      nodes.modify newNode fun _ => data
      rest newNode) m Q E := by
  apply ends_bind_malloc
  · intro m' _ hused
    exact ends_of_error (bind_error rfl) (hrefused m' (hused.refusals_lt_iff.mpr (by simp)))
  · intro q m' hq hcells hused
    have href : m'.refusals = m.refusals := hused.refusals_eq_iff.mpr (by simp)
    have hnode : m'.cells q = some (nodes.node M.junkData M.junkPointer) := by
      rw [hcells, Function.update_self]
      rfl
    refine ends_bind_ok (nodes.modify_ok hnode _) (hrest q _ hq ?_ href)
    rw [Memory.set_cells, hcells, Function.update_idem]
    rfl

/-- **`llist_push`.** -/
theorem llistPush_does (h : Represents frame m.cells list ns) (data : Option α) :
    Does frame list m (llistPush M (some list) data)
      ((Llist.llistPush (chain ns) data).map fun list' => (list', ())) := by
  refine ends_bind_ok h.read ?_
  rcases ns with - | ⟨⟨p, d⟩, l⟩
  · exact ends_of_error (bind_error (nodes.get_null m)) ⟨rfl, .inr rfl⟩
  · obtain ⟨hp, hl⟩ := h.linked
    refine ends_bind_ok (nodes.get_ok hp) ?_
    cases d with
    | none => exact ends_of_ok (nodes.modify_ok hp _) ⟨rfl, _, h.setFirst data, rfl⟩
    | some d =>
        apply ends_newNode
        · intro m' href
          exact ⟨rfl, .inl href⟩
        · intro q m' hq hcells href
          have hnode : m'.cells q = some (nodes.node data M.junkPointer) := by
            rw [hcells, Function.update_self]
            rfl
          refine ends_bind_ok (nodes.setNext_ok hnode (some p)) ?_
          obtain ⟨m₂, hrun, hrep, href₂⟩ := linkIn_ok (m := m'.set q (nodes.node data (some p)))
            [] ((p, some d) :: l) h hq (by
              rw [Memory.set_cells, hcells, Function.update_idem]
              rfl)
          exact ends_of_ok hrun ⟨href₂.trans href, _, hrep, rfl⟩

/-- **`llist_pop`.** -/
theorem llistPop_does (h : Represents frame m.cells list ns) :
    Does frame list m (llistPop (some list)) (Llist.llistPop (chain ns)) := by
  refine ends_bind_ok h.read ?_
  rcases ns with - | ⟨⟨p, d⟩, l⟩
  · exact ends_of_error (bind_error (nodes.get_null m)) ⟨rfl, .inr rfl⟩
  · obtain ⟨hp, hl⟩ := h.linked
    refine ends_bind_ok (nodes.get_ok hp) ?_
    cases d with
    | none => exact ends_of_ok rfl ⟨rfl, _, h, rfl⟩
    | some d =>
        have hne : p ≠ list := by
          rintro rfl
          exact h.list_not_mem (by simp [addresses])
        have hlist : list ∉ addresses l := fun hmem => h.list_not_mem (List.mem_cons_of_mem _ hmem)
        have howns : Owns frame m.cells (p :: list :: addresses l) :=
          h.owns.perm (List.Perm.swap p list _)
        have hp' : (m.set list (.head (first l none))).cells p =
            some (nodes.node (some d) (first l none)) := by
          rw [Memory.set_cells, Function.update_of_ne hne, hp]
        refine ends_bind_ok (write_ok h.head _) (ends_bind_ok (free_ok hp') ?_)
        refine ends_of_ok rfl ⟨rfl, l, ⟨?_, ?_, ?_⟩, rfl⟩
        · rw [Memory.erase_cells, Function.update_of_ne hne.symm, Memory.set_cells,
            Function.update_self]
        · exact (hl.update hlist _).update (List.nodup_cons.mp h.nodup).1 _
        · exact (howns.set (by simp) _).free

omit [DecidableEq P] in
/-- The search of `llist_add_inorder`. -/
theorem search_ok (comp : Option α → Option α → ℤ) (data : Option α)
    (hlinked : Segment nodes m.cells ns none) {fuel : ℕ} (hfuel : ns.length < fuel) :
    walk nodes (fun d => pure (goesOn comp data d)) fuel none (first ns none) m =
      (.ok (lastOr none (ns.takeWhile fun x => goesOn comp data x.2),
        first (ns.dropWhile fun x => goesOn comp data x.2) none), m) := by
  have hsplit := List.takeWhile_append_dropWhile (p := fun x => goesOn comp data x.2) (l := ns)
  have hstop := List.head?_dropWhile_not (fun x => goesOn comp data x.2) ns
  have hlen : (ns.takeWhile fun x => goesOn comp data x.2).length < fuel :=
    Nat.lt_of_le_of_lt (List.takeWhile_sublist _).length_le hfuel
  conv_lhs => rw [← hsplit]
  refine walk_ok _ _ (by rwa [hsplit]) ?_ ?_ hlen none
  · intro x hx
    have hgo := List.mem_takeWhile_imp hx
    rw [pure_apply, hgo]
  · intro x hx
    rw [Option.mem_def] at hx
    rw [hx] at hstop
    rw [pure_apply, hstop]

/-- **`llist_add_inorder`.** -/
theorem llistAddInorder_does (h : Represents frame m.cells list ns) (hfuel : ns.length < M.fuel)
    (data : Option α) (comp : Option α → Option α → ℤ) :
    Does frame list m (llistAddInorder M data (some list) comp)
      (Llist.llistAddInorder data (chain ns) comp) := by
  unfold llistAddInorder
  rw [if_neg (by simp)]
  refine ends_bind_ok h.read ?_
  rcases ns with - | ⟨⟨p, d⟩, l⟩
  · exact ends_of_ok rfl ⟨rfl, [], h, rfl⟩
  · obtain ⟨hp, hl⟩ := h.linked
    rw [if_neg (by simp [first])]
    refine ends_bind_ok (nodes.get_ok hp) ?_
    cases d with
    | none =>
        refine ends_bind_ok (nodes.modify_ok hp _) (ends_of_ok rfl ⟨rfl, _, h.setFirst data, rfl⟩)
    | some d =>
        apply ends_newNode
        · intro m' href
          exact ⟨rfl, .inl href⟩
        · intro q m' hq hcells href
          generalize hns : (p, some d) :: l = ns at *
          have hout : q ∉ addresses ns := fun hmem =>
            h.owns.not_mem hq (List.mem_cons_of_mem _ hmem)
          have hlinked : Segment nodes m'.cells ns none := by
            rw [hcells]
            exact h.linked.update hout _
          have hnode : m'.cells q = some (nodes.node data M.junkPointer) := by
            rw [hcells, Function.update_self]
            rfl
          refine ends_bind_ok (search_ok comp data hlinked hfuel)
            (ends_bind_ok (nodes.setNext_ok hnode _) ?_)
          have hsplit := List.takeWhile_append_dropWhile (p := fun x => goesOn comp data x.2)
            (l := ns)
          rw [← hsplit] at h
          obtain ⟨m₂, hrun, hrep, href₂⟩ := linkIn_ok (m := m'.set q (nodes.node data
            (first (ns.dropWhile fun x => goesOn comp data x.2) none))) _ _ h hq (by
              rw [Memory.set_cells, hcells, Function.update_idem])
          refine ends_bind_ok hrun (ends_of_ok rfl ⟨href₂.trans href, _, hrep, ?_⟩)
          rw [chain_insert, ← hns]
          rfl

/-! ## Programs -/

omit [DecidableEq P] in
theorem Does.map {γ : Type} {x : Prog P (Block P α) β} {r : Except Llist.Fault (Llist.Chain α × β)}
    (h : Does frame list m x r) (f : β → γ) :
    Does frame list m (x >>= fun b => pure (f b)) (r.map fun s => (s.1, f s.2)) := by
  refine Ends.bind (h.mono (fun _ _ hQ => hQ) fun fault m' hE => ?_) fun b m' hQ => ?_
  · obtain ⟨hfault, hcause⟩ := hE
    refine ⟨hfault, hcause.imp_right ?_⟩
    rintro rfl
    rfl
  · obtain ⟨href, ns', hrep, rfl⟩ := hQ
    exact ends_of_ok rfl ⟨href, ns', hrep, rfl⟩

/-- **One call does to the list what it does to the chain.** -/
theorem callOf_does (h : Represents frame m.cells list ns) (hfuel : ns.length < M.fuel)
    (call : Llist.Call α) :
    Does frame list m (callOf M (some list) call) (Llist.exec (chain ns) call) := by
  cases call with
  | push data =>
      have hmap := (llistPush_does (M := M) h (some data)).map fun _ => Llist.Answer.pushed (α := α)
      rw [Llist.exec]
      cases hpush : Llist.llistPush (chain ns) (some data) with
      | error fault =>
          rw [hpush] at hmap
          exact hmap
      | ok list' =>
          rw [hpush] at hmap
          exact hmap
  | pop => exact (llistPop_does h).map Llist.Answer.popped
  | addInorder data comp =>
      exact (llistAddInorder_does h hfuel (some data) comp).map Llist.Answer.added

/-- A call makes the chain longer by one node at most. -/
theorem length_of_exec {chain chain' : Llist.Chain α} {call : Llist.Call α}
    {answer : Llist.Answer α} (h : Llist.exec chain call = .ok (chain', answer)) :
    chain'.length ≤ chain.length + 1 := by
  have hinsert : ∀ (comp : Option α → Option α → ℤ) (data : Option α) (list : Llist.Chain α),
      (Llist.insertLoop comp data list).length = list.length + 1 := by
    intro comp data list
    rw [insertLoop_eq, List.length_append, List.length_cons, ← Nat.add_assoc, ← List.length_append,
      List.takeWhile_append_dropWhile]
  rcases chain with - | ⟨- | d, next⟩
  · cases call with
    | push data => cases h
    | pop => cases h
    | addInorder data comp =>
        cases h
        exact Nat.zero_le _
  · cases call <;> cases h <;> simp
  · cases call with
    | push data => cases h; simp
    | pop =>
        cases h
        show next.length ≤ (some d :: next).length + 1
        rw [List.length_cons]
        omega
    | addInorder data comp =>
        cases h
        exact Nat.le_of_eq (hinsert comp (some data) (some d :: next))

/-- **The calls of a program do to the list what they do to the chain.** -/
theorem calls_end (calls : List (Llist.Call α)) (h : Represents frame m.cells list ns)
    (hfuel : ns.length + calls.length < M.fuel) :
    Ends (serve (callOf M (some list)) calls) m
      (fun answers m' => m'.refusals = m.refusals ∧ ∃ ns', Represents frame m'.cells list ns' ∧
        ns'.length < M.fuel ∧ Runs.run Llist.step (chain ns) calls = some (chain ns', answers))
      (fun fault m' => fault = .nullDereference ∧
        (m.refusals < m'.refusals ∨ Runs.run Llist.step (chain ns) calls = none)) := by
  let Rep : ℕ → Llist.Chain α → Memory P (Block P α) → Prop := fun n c m' =>
    m'.refusals = m.refusals ∧
      ∃ ns, c = chain ns ∧ Represents frame m'.cells list ns ∧ ns.length + n < M.fuel
  have hserve := serve_ends (callOf M (some list)) Llist.step (fun _ => 1) Rep
    (E := fun fault m' => fault = .nullDereference ∧ m.refusals < m'.refusals)
    (S := fun fault _ => fault = .nullDereference) ?_
    calls ⟨rfl, ns, rfl, h, by simpa using hfuel⟩
  · refine hserve.mono ?_ ?_
    · rintro answers m' ⟨c, hrun, href, ns', rfl, hrep, hlen⟩
      exact ⟨href, ns', hrep, hlen, hrun⟩
    · rintro fault m' (⟨hfault, href⟩ | ⟨hfault, hrun⟩)
      · exact ⟨hfault, .inl href⟩
      · exact ⟨hfault, .inr hrun⟩
  · rintro n c m₁ call ⟨href₁, ns₁, rfl, hrep₁, hlen₁⟩
    refine (callOf_does (M := M) hrep₁ (by omega) call).mono ?_ ?_
    · rintro answer m₂ ⟨href₂, ns₂, hrep₂, hexec⟩
      have hchain := length_of_exec hexec
      rw [chain, chain, List.length_map, List.length_map] at hchain
      refine ⟨chain ns₂, ?_, href₂.trans href₁, ns₂, rfl, hrep₂, by omega⟩
      rw [Llist.step, hexec]
      rfl
    · rintro fault m₂ ⟨hfault, href | hexec⟩
      · exact .inl ⟨hfault, href₁ ▸ href⟩
      · exact .inr ⟨hfault, by rw [Llist.step, hexec]; rfl⟩

/-- **`llist_create`.** -/
theorem llistCreate_ends (m : Memory P (Block P α)) (d : Option α) :
    Ends (llistCreate M d) m
      (fun list m' => m'.refusals = m.refusals ∧
        ∃ p q, list = some p ∧ Represents m.cells m'.cells p [(q, d)])
      (fun fault m' => fault = .nullDereference ∧ m.refusals < m'.refusals) := by
  apply ends_bind_malloc
  · intro m₁ _ hused₁
    apply ends_bind_malloc
    · intro m₂ _ hused₂
      have href := (hused₁.trans hused₂).refusals_lt_iff.mpr (by simp)
      exact ends_of_error (bind_error rfl) ⟨rfl, href⟩
    · intro q m₂ _ _ hused₂
      have href := (hused₁.trans hused₂).refusals_lt_iff.mpr (by simp)
      exact ends_of_error (bind_error rfl) ⟨rfl, href⟩
  · intro p m₁ hp hcells₁ hused₁
    obtain ⟨howns₁, hhead₁, -⟩ := (owns_nil m.cells).given hp hcells₁
    apply ends_bind_malloc
    · intro m₂ hcells₂ hused₂
      have href := (hused₁.trans hused₂).refusals_lt_iff.mpr (by simp)
      have hhead : m₂.cells p = some (.head M.junkPointer) := by rw [hcells₂, hhead₁]
      refine ends_bind_ok (write_ok hhead (.head none)) ?_
      refine ends_bind_ok (read_ok (Function.update_self _ _ _) rfl) ?_
      exact ends_of_error (bind_error rfl) ⟨rfl, href⟩
    · intro q m₂ hq hcells₂ hused₂
      have href := (hused₁.trans hused₂).refusals_eq_iff.mpr (by simp)
      obtain ⟨howns₂, -, hkept⟩ := howns₁.given hq hcells₂
      obtain ⟨hne, hhead⟩ := hkept p _ hhead₁
      have hnode : (m₂.set p (.head (some q))).cells q =
          some (nodes.node M.junkData M.junkPointer) := by
        rw [Memory.set_cells, Function.update_of_ne hne.symm, hcells₂, Function.update_self]
        rfl
      refine ends_bind_ok (write_ok hhead (.head (some q))) ?_
      refine ends_bind_ok (read_ok (Function.update_self _ _ _) rfl) ?_
      refine ends_bind_ok (nodes.modify_ok hnode _) ?_
      refine ends_bind_ok (nodes.setNext_ok (Function.update_self _ _ _) none) ?_
      refine ends_of_ok rfl ⟨href, p, q, rfl, ⟨?_, ?_, ?_⟩⟩
      · rw [Memory.set_cells, Function.update_of_ne hne, Memory.set_cells,
          Function.update_of_ne hne, Memory.set_cells, Function.update_self]
        rfl
      · exact ⟨Function.update_self _ _ _, trivial⟩
      · have hset := ((howns₂.set (p := p) (by simp) (.head (some q))).set (p := q) (by simp)
          (nodes.node d M.junkPointer)).set (p := q) (by simp) (nodes.node d none)
        exact hset.perm (List.Perm.swap p q [])

/-- **`llist_free`** gives back every block of the list. -/
theorem llistFree_ok (h : Represents frame m.cells list ns) (hfuel : ns.length < M.fuel) :
    ∃ m', llistFree M (some list) m = (.ok (), m') ∧ m'.cells = frame ∧
      m'.refusals = m.refusals := by
  have howns : Owns frame m.cells (blocks (fun _ => []) ns ++ [list]) := by
    rw [blocks_addresses]
    exact h.owns.perm (List.perm_append_singleton list _).symm
  obtain ⟨m₁, hrun, howns₁, hsame, href⟩ :=
    disposeAll_ok (releases_nothing nodes) howns h.linked hfuel
  have hhead : m₁.cells list = some (.head (first ns none)) := by
    rw [hsame list List.mem_cons_self, h.head]
  refine ⟨m₁.erase list, ?_, howns₁.free.eq_of_nil, congrArg (List.count false) href⟩
  rw [llistFree, bind_ok h.read, bind_ok hrun]
  exact free_ok hhead

/-- The text `llist_print` writes for a chain. -/
def printed (print : Option α → List UInt8) (chain : Llist.Chain α) : List UInt8 :=
  (chain.flatMap fun d => print d ++ [32]) ++ [10]

omit [DecidableEq P] in
theorem llistPrint_ok (h : Represents frame m.cells list ns) (hfuel : ns.length < M.fuel)
    (print : Option α → List UInt8) :
    llistPrint M (some list) print m = (.ok (printed print (chain ns)), m) := by
  rw [llistPrint, bind_ok h.read, bind_ok (traverse_ok h.linked hfuel)]
  rfl

/-- **A program with a list uses memory soundly.**  Whatever the allocator answers and
fresh blocks hold, a program that creates a list, uses it, prints it and frees it returns
with the memory as it was before, having done what the run of `Llist` does; or it stops at
a NULL pointer, because an allocation was refused or because that run is stuck. -/
theorem llist_program_keeps_memory (M : Machine P α) (d : Option α)
    (calls : List (Llist.Call α)) (print : Option α → List UInt8)
    (hfuel : calls.length + 1 < M.fuel) (m : Memory P (Block P α)) :
    Ends (program M d calls print) m
      (fun r m' => m'.cells = m.cells ∧ m'.refusals = m.refusals ∧
        ∃ chain, Runs.run Llist.step (Llist.llistCreate d) calls = some (chain, r.1) ∧
          r.2 = printed print chain)
      (fun fault m' => fault = .nullDereference ∧
        (m.refusals < m'.refusals ∨
          Runs.run Llist.step (Llist.llistCreate d) calls = none)) := by
  refine Ends.bind ((llistCreate_ends m d).mono (fun _ _ hQ => hQ) fun fault m' hE => ?_)
    fun list m₁ hQ => ?_
  · exact ⟨hE.1, .inl hE.2⟩
  · obtain ⟨href₁, p, q, rfl, hrep₁⟩ := hQ
    have hcalls := calls_end (M := M) calls hrep₁ (by rw [List.length_singleton]; omega)
    refine Ends.bind (hcalls.mono (fun _ _ hQ => hQ) fun fault m' hE => ?_) fun answers m₂ hQ => ?_
    · rw [href₁] at hE
      exact hE
    · obtain ⟨href₂, ns, hrep₂, hns, hrun⟩ := hQ
      obtain ⟨m₃, hfree, hcells, href₃⟩ := llistFree_ok hrep₂ hns
      refine ends_bind_ok (llistPrint_ok hrep₂ hns print) (ends_bind_ok hfree ?_)
      exact ends_of_ok rfl ⟨hcells, href₃.trans (href₂.trans href₁), chain ns, hrun, rfl⟩

/-- A list is filled, popped down to its last node, printed and freed. -/
theorem llist_program_keeps_memory_three_calls :
    ∃ m', program (P := ℕ) ⟨Allocator.numbered, none, some 7, 5⟩ (some 1) [.push 2, .pop,
        .addInorder 3 fun _ _ => -1] (fun _ => [46]) ⟨fun _ => none, []⟩ =
        (.ok ([.pushed, .popped (some 2), .added 1], [46, 32, 46, 32, 10]), m') ∧
      m'.cells = fun _ => none := by
  have h := llist_program_keeps_memory (P := ℕ) ⟨Allocator.numbered, none, some 7, 5⟩ (some 1)
    [.push 2, .pop, .addInorder 3 fun _ _ => -1] (fun _ => [46]) (by decide) ⟨fun _ => none, []⟩
  exact ⟨_, rfl, And.left h⟩

end LlistMemory

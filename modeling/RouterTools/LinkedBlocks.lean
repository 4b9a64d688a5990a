/-
# Singly linked lists in memory

A list in memory is a sequence of nodes, each with its data and a pointer to the next one.
`Segment` says where the nodes stand and what the last one points to; what is written
elsewhere does not matter to it, and a link can be redirected at its last node.

The loops over such a list are the search that keeps the node behind it (`walk`), the
traversal (`traverse`), the way to the last node (`findLast`) and the loop that disposes of
every node (`disposeAll`).  A budget of one more than the number of nodes suffices for each.
-/
import RouterTools.Memory

namespace Blocks

variable {P V δ : Type}

/-! ## Nodes -/

/-- How a node is kept in a block: its data and the pointer to the next node. -/
structure Layout (P V δ : Type) where
  node : δ → Option P → V
  asNode : V → Option (δ × Option P)
  asNode_node : ∀ d q, asNode (node d q) = some (d, q)

/-- Reading a node. -/
def Layout.get (L : Layout P V δ) (p : Option P) : Prog P V (δ × Option P) := read L.asNode p

/-- The pointer to the first of the nodes, `q` where there is none. -/
def first : List (P × δ) → Option P → Option P
  | [], q => q
  | x :: _, _ => some x.1

/-- The pointer to the last of the nodes, `prev` where there is none. -/
def lastOr (prev : Option P) : List (P × δ) → Option P
  | [] => prev
  | x :: l => lastOr (some x.1) l

/-- The nodes stand in memory, each linked to the next and the last one to `q`. -/
def Segment (L : Layout P V δ) (cells : P → Option V) : List (P × δ) → Option P → Prop
  | [], _ => True
  | x :: l, q => cells x.1 = some (L.node x.2 (first l q)) ∧ Segment L cells l q

/-- The addresses of the nodes. -/
def addresses (l : List (P × δ)) : List P := l.map Prod.fst

variable {L : Layout P V δ} {cells cells' : P → Option V} {l l₁ l₂ : List (P × δ)} {x : P × δ}
  {q r : Option P}

theorem addresses_cons (x : P × δ) (l : List (P × δ)) :
    addresses (x :: l) = x.1 :: addresses l := rfl

theorem addresses_append (l₁ l₂ : List (P × δ)) :
    addresses (l₁ ++ l₂) = addresses l₁ ++ addresses l₂ :=
  List.map_append

theorem first_append (l₁ l₂ : List (P × δ)) (q : Option P) :
    first (l₁ ++ l₂) q = first l₁ (first l₂ q) := by
  cases l₁ <;> rfl

theorem lastOr_concat (prev : Option P) (l : List (P × δ)) (x : P × δ) :
    lastOr prev (l ++ [x]) = some x.1 := by
  induction l generalizing prev with
  | nil => rfl
  | cons y l ih => exact ih (some y.1)

theorem segment_append :
    Segment L cells (l₁ ++ l₂) q ↔ Segment L cells l₁ (first l₂ q) ∧ Segment L cells l₂ q := by
  induction l₁ with
  | nil => simp only [List.nil_append, Segment, true_and]
  | cons y l₁ ih =>
      rw [List.cons_append, Segment, Segment, ih, first_append, and_assoc]

/-- Only the blocks of the nodes matter. -/
theorem Segment.congr (h : Segment L cells l q)
    (hsame : ∀ a ∈ addresses l, cells' a = cells a) : Segment L cells' l q := by
  induction l with
  | nil => trivial
  | cons y l ih =>
      obtain ⟨hy, hl⟩ := h
      have hsame' := List.forall_mem_cons.mp hsame
      exact ⟨by rw [hsame'.1, hy], ih hl hsame'.2⟩

/-- A node of the list. -/
theorem Segment.getNode (h : Segment L cells (l₁ ++ x :: l₂) q) :
    cells x.1 = some (L.node x.2 (first l₂ q)) :=
  (segment_append.mp h).2.1

/-- There is a node at each of the addresses. -/
theorem Segment.exists_node (h : Segment L cells l q) {a : P} (ha : a ∈ addresses l) :
    ∃ d r, cells a = some (L.node d r) := by
  obtain ⟨y, hy, rfl⟩ := List.mem_map.mp ha
  obtain ⟨l₁, l₂, rfl⟩ := List.append_of_mem hy
  exact ⟨y.2, _, h.getNode⟩

variable {m : Memory P V} {p : P} {d : δ}

theorem Layout.get_ok (hp : m.cells p = some (L.node d q)) :
    L.get (some p) m = (.ok (d, q), m) :=
  read_ok hp (L.asNode_node d q)

@[simp] theorem Layout.get_null (L : Layout P V δ) (m : Memory P V) :
    L.get none m = (.error .nullDereference, m) := rfl

/-- The blocks of the nodes, with those their data own. -/
def blocks (owned : δ → List P) (l : List (P × δ)) : List P :=
  l.flatMap fun x => x.1 :: owned x.2

@[simp] theorem blocks_nil (owned : δ → List P) : blocks owned ([] : List (P × δ)) = [] := rfl

@[simp] theorem blocks_cons (owned : δ → List P) (x : P × δ) (l : List (P × δ)) :
    blocks owned (x :: l) = x.1 :: (owned x.2 ++ blocks owned l) := rfl

theorem blocks_append (owned : δ → List P) (l₁ l₂ : List (P × δ)) :
    blocks owned (l₁ ++ l₂) = blocks owned l₁ ++ blocks owned l₂ :=
  List.flatMap_append

theorem addresses_sublist (owned : δ → List P) (l : List (P × δ)) :
    (addresses l).Sublist (blocks owned l) := by
  induction l with
  | nil => exact List.Sublist.slnil
  | cons x l ih =>
      rw [addresses_cons, blocks_cons]
      exact (ih.trans (List.sublist_append_right _ _)).cons_cons x.1

/-- The blocks of one of the nodes, in front of the others. -/
theorem blocks_middle (owned : δ → List P) (l₁ : List (P × δ)) (x : P × δ) (l₂ : List (P × δ)) :
    (blocks owned (l₁ ++ x :: l₂)).Perm (x.1 :: (owned x.2 ++ blocks owned (l₁ ++ l₂))) := by
  rw [blocks_append, blocks_append, blocks_cons]
  refine List.perm_middle.trans (List.Perm.cons x.1 ?_)
  rw [← List.append_assoc, ← List.append_assoc]
  exact List.Perm.append_right _ List.perm_append_comm

/-- Data that own nothing. -/
theorem blocks_addresses (l : List (P × δ)) : blocks (fun _ => []) l = addresses l :=
  List.flatMap_pure_eq_map _ _

theorem mem_blocks_of_mem_addresses {owned : δ → List P} {a : P} (h : a ∈ addresses l) :
    a ∈ blocks owned l :=
  (addresses_sublist owned l).subset h

/-! ## The search -/

/-- `while (curr != NULL && go(curr)) { prev = curr; curr = curr->next; }`: the two pointers
at its end. -/
def walk (L : Layout P V δ) (go : δ → Prog P V Bool) :
    ℕ → Option P → Option P → Prog P V (Option P × Option P)
  | 0, _, _ => fail .outOfFuel
  | _ + 1, prev, none => pure (prev, none)
  | fuel + 1, prev, some curr => do
      let (d, next) ← L.get (some curr)
      if ← go d then walk L go fuel (some curr) next
      else pure (prev, some curr)

/-- **The search** stops at the first node at which it does not go on, with the one before
it. -/
theorem walk_ok {go : δ → Prog P V Bool} (before after : List (P × δ))
    (hl : Segment L m.cells (before ++ after) none)
    (hbefore : ∀ x ∈ before, go x.2 m = (.ok true, m))
    (hafter : ∀ x ∈ after.head?, go x.2 m = (.ok false, m)) {fuel : ℕ}
    (hfuel : before.length < fuel) (prev : Option P) :
    walk L go fuel prev (first (before ++ after) none) m =
      (.ok (lastOr prev before, first after none), m) := by
  obtain ⟨n, rfl⟩ : ∃ n, fuel = n + 1 := ⟨fuel - 1, by omega⟩
  induction before generalizing n prev with
  | nil =>
      cases after with
      | nil => rfl
      | cons x after =>
          show walk L go (n + 1) prev (some x.1) m = _
          rw [walk, bind_ok (L.get_ok hl.1)]
          dsimp only
          rw [bind_ok (hafter x rfl), if_neg Bool.false_ne_true]
          rfl
  | cons x before ih =>
      obtain ⟨hx, hl⟩ := hl
      obtain ⟨hgo, hbefore⟩ := List.forall_mem_cons.mp hbefore
      obtain ⟨k, rfl⟩ : ∃ k, n = k + 1 := ⟨n - 1, by rw [List.length_cons] at hfuel; omega⟩
      rw [List.length_cons] at hfuel
      show walk L go (k + 1 + 1) prev (some x.1) m = _
      rw [walk, bind_ok (L.get_ok hx)]
      dsimp only
      rw [bind_ok hgo, if_pos rfl]
      exact ih hl hbefore (some x.1) k (by omega)

/-! ## The traversal -/

/-- `while (curr != NULL) { visit(curr->data); curr = curr->next; }`: the data visited. -/
def traverse (L : Layout P V δ) : ℕ → Option P → Prog P V (List δ)
  | 0, _ => fail .outOfFuel
  | _ + 1, none => pure []
  | fuel + 1, some curr => do
      let (d, next) ← L.get (some curr)
      let rest ← traverse L fuel next
      pure (d :: rest)

theorem traverse_ok (hl : Segment L m.cells l none) {fuel : ℕ} (hfuel : l.length < fuel) :
    traverse L fuel (first l none) m = (.ok (l.map Prod.snd), m) := by
  induction l generalizing fuel with
  | nil =>
      obtain ⟨n, rfl⟩ : ∃ n, fuel = n + 1 := ⟨fuel - 1, by omega⟩
      rfl
  | cons x l ih =>
      obtain ⟨n, rfl⟩ : ∃ n, fuel = n + 1 := ⟨fuel - 1, by omega⟩
      obtain ⟨hx, hl⟩ := hl
      have hlen : l.length < n := by
        rw [List.length_cons] at hfuel
        omega
      show traverse L (n + 1) (some x.1) m = _
      rw [traverse, bind_ok (L.get_ok hx)]
      dsimp only
      rw [bind_ok (ih hl hlen)]
      rfl

/-- `while (last->next != NULL) last = last->next;`: the last node. -/
def findLast (L : Layout P V δ) : ℕ → Option P → Prog P V (Option P)
  | 0, _ => fail .outOfFuel
  | fuel + 1, last => do
      let (_, next) ← L.get last
      if next.isNone then pure last else findLast L fuel next

theorem findLast_ok (l : List (P × δ)) {x : P × δ} (hl : Segment L m.cells (l ++ [x]) none)
    {fuel : ℕ} (hfuel : l.length < fuel) :
    findLast L fuel (first (l ++ [x]) none) m = (.ok (some x.1), m) := by
  obtain ⟨n, rfl⟩ : ∃ n, fuel = n + 1 := ⟨fuel - 1, by omega⟩
  induction l generalizing n with
  | nil =>
      show findLast L (n + 1) (some x.1) m = _
      rw [findLast, bind_ok (L.get_ok hl.1)]
      rfl
  | cons y l ih =>
      have hl' : Segment L m.cells (y :: (l ++ [x])) none := hl
      obtain ⟨hy, hrest⟩ := hl'
      obtain ⟨k, rfl⟩ : ∃ k, n = k + 1 := ⟨n - 1, by rw [List.length_cons] at hfuel; omega⟩
      rw [List.length_cons] at hfuel
      show findLast L (k + 1 + 1) (some y.1) m = _
      rw [findLast, bind_ok (L.get_ok hy)]
      have hnext : (first (l ++ [x]) none).isNone = false := by cases l <;> rfl
      dsimp only
      rw [hnext, if_neg Bool.false_ne_true]
      exact ih hrest k (by omega)

/-! ## Writing -/

section Cells

variable [DecidableEq P]

/-- What is written elsewhere does not matter. -/
theorem Segment.update (h : Segment L cells l q) {a : P} (ha : a ∉ addresses l) (v : Option V) :
    Segment L (Function.update cells a v) l q := by
  refine h.congr fun b hb => Function.update_of_ne ?_ _ _
  rintro rfl
  exact ha hb

/-- The link of the last node is redirected. -/
theorem Segment.relink (h : Segment L cells (l ++ [x]) q) (hx : x.1 ∉ addresses l)
    (r : Option P) :
    Segment L (Function.update cells x.1 (some (L.node x.2 r))) (l ++ [x]) r := by
  obtain ⟨hl, -⟩ := segment_append.mp h
  exact segment_append.mpr ⟨hl.update hx _, Function.update_self _ _ _, trivial⟩

/-- The data of one of the nodes are written. -/
theorem Segment.setData (h : Segment L cells (l₁ ++ x :: l₂) q)
    (hnodup : (addresses (l₁ ++ x :: l₂)).Nodup) (d : δ) :
    Segment L (Function.update cells x.1 (some (L.node d (first l₂ q)))) (l₁ ++ (x.1, d) :: l₂)
      q := by
  rw [addresses_append, addresses_cons, List.nodup_middle] at hnodup
  have hout := (List.nodup_cons.mp hnodup).1
  rw [List.mem_append, not_or] at hout
  obtain ⟨hbefore, -, hafter⟩ := segment_append.mp h
  exact segment_append.mpr
    ⟨hbefore.update hout.1 _, Function.update_self _ _ _, hafter.update hout.2 _⟩

/-- `p->next = q`. -/
def Layout.setNext (L : Layout P V δ) (p q : Option P) : Prog P V Unit := do
  let (d, _) ← L.get p
  write p (L.node d q)

/-- An assignment to the data of the node. -/
def Layout.modify (L : Layout P V δ) (p : Option P) (f : δ → δ) : Prog P V Unit := do
  let (d, q) ← L.get p
  write p (L.node (f d) q)

theorem Layout.setNext_ok (hp : m.cells p = some (L.node d q)) (r : Option P) :
    L.setNext (some p) r m = (.ok (), m.set p (L.node d r)) := by
  rw [Layout.setNext, bind_ok (L.get_ok hp)]
  exact write_ok hp _

theorem Layout.modify_ok (hp : m.cells p = some (L.node d q)) (f : δ → δ) :
    L.modify (some p) f m = (.ok (), m.set p (L.node (f d) q)) := by
  rw [Layout.modify, bind_ok (L.get_ok hp)]
  exact write_ok hp _

/-- `if (prev == NULL) head = target; else prev->next = target;`. -/
def relinkAt (L : Layout P V δ) (setHead : Option P → Prog P V Unit) (prev target : Option P) :
    Prog P V Unit :=
  match prev with
  | none => setHead target
  | some prev => L.setNext (some prev) target

/-- **The link behind a part of the list is redirected**, whether it is in the last node of
the part or, where the part is empty, in the block at `h` that holds the head pointer. -/
theorem relinkAt_ok {setHead : Option P → Prog P V Unit} {hd : Option P → V} {h : P}
    (before : List (P × δ)) (hset : ∀ t, setHead t m = (.ok (), m.set h (hd t)))
    (hhead : m.cells h = some (hd (first before q))) (hout : h ∉ addresses before)
    (hnodup : (addresses before).Nodup) (hl : Segment L m.cells before q) (target : Option P) :
    ∃ a v, relinkAt L setHead (lastOr none before) target m = (.ok (), m.set a v) ∧
      a ∈ h :: addresses before ∧ (m.set a v).cells h = some (hd (first before target)) ∧
      Segment L (m.set a v).cells before target := by
  rcases List.eq_nil_or_concat' before with rfl | ⟨before, x, rfl⟩
  · exact ⟨h, hd target, hset target, List.mem_cons_self, Function.update_self _ _ _, trivial⟩
  · have hx : m.cells x.1 = some (L.node x.2 q) := (segment_append.mp hl).2.1
    have hmem : x.1 ∈ addresses (before ++ [x]) := by simp [addresses]
    have hne : h ≠ x.1 := by
      intro heq
      exact hout (heq ▸ hmem)
    have hfresh : x.1 ∉ addresses before := by
      rw [addresses_append, List.nodup_append] at hnodup
      intro hin
      exact hnodup.2.2 _ hin _ List.mem_cons_self rfl
    refine ⟨x.1, L.node x.2 target, ?_, List.mem_cons_of_mem _ hmem, ?_, ?_⟩
    · rw [lastOr_concat]
      exact L.setNext_ok hx target
    · rw [Memory.set_cells, Function.update_of_ne hne, hhead]
      cases before <;> rfl
    · exact hl.relink hfresh target

/-! ## The disposal -/

/-- `while (curr != NULL) { next = curr->next; release(curr); free(curr); curr = next; }`. -/
def disposeAll (L : Layout P V δ) (release : P → Prog P V Unit) : ℕ → Option P → Prog P V Unit
  | 0, _ => fail .outOfFuel
  | _ + 1, none => pure ()
  | fuel + 1, some curr => do
      let (_, next) ← L.get (some curr)
      release curr
      free (some curr)
      disposeAll L release fuel next

/-- `release` frees what the data of a node own, and touches the node besides. -/
def Releases (L : Layout P V δ) (owned : δ → List P) (release : P → Prog P V Unit) : Prop :=
  ∀ (frame : P → Option V) (m : Memory P V) (x : P × δ) (q : Option P) (rest : List P),
    Owns frame m.cells (x.1 :: (owned x.2 ++ rest)) → m.cells x.1 = some (L.node x.2 q) →
    ∃ m', release x.1 m = (.ok (), m') ∧ Owns frame m'.cells (x.1 :: rest) ∧
      (∀ a ∈ rest, m'.cells a = m.cells a) ∧ m'.answers = m.answers

omit [DecidableEq P] in
theorem releases_nothing (L : Layout P V δ) : Releases L (fun _ => []) fun _ => pure () :=
  fun _ m _ _ _ howns _ => ⟨m, rfl, howns, fun _ _ => rfl, rfl⟩

/-- **The disposal frees every block of the list, once**, and nothing else. -/
theorem disposeAll_ok {owned : δ → List P} {release : P → Prog P V Unit}
    (hrelease : Releases L owned release) {frame : P → Option V} {rest : List P}
    (howns : Owns frame m.cells (blocks owned l ++ rest)) (hl : Segment L m.cells l none)
    {fuel : ℕ} (hfuel : l.length < fuel) :
    ∃ m', disposeAll L release fuel (first l none) m = (.ok (), m') ∧
      Owns frame m'.cells rest ∧ (∀ a ∈ rest, m'.cells a = m.cells a) ∧
      m'.answers = m.answers := by
  induction l generalizing m fuel with
  | nil =>
      obtain ⟨n, rfl⟩ : ∃ n, fuel = n + 1 := ⟨fuel - 1, by omega⟩
      exact ⟨m, rfl, howns, fun _ _ => rfl, rfl⟩
  | cons x l ih =>
      obtain ⟨n, rfl⟩ : ∃ n, fuel = n + 1 := ⟨fuel - 1, by omega⟩
      obtain ⟨hx, hl⟩ := hl
      have hlen : l.length < n := by
        rw [List.length_cons] at hfuel
        omega
      rw [blocks_cons, List.cons_append, List.append_assoc] at howns
      obtain ⟨m₁, hrun₁, howns₁, hsame₁, href₁⟩ := hrelease frame m x _ _ howns hx
      obtain ⟨v, hv⟩ := howns₁.there x.1 List.mem_cons_self
      have hnot := (List.nodup_cons.mp howns₁.nodup).1
      -- after the node itself is freed the rest of the list is as it was
      have hsame₂ : ∀ a ∈ blocks owned l ++ rest, (m₁.erase x.1).cells a = m.cells a := by
        intro a ha
        have hne : a ≠ x.1 := by
          rintro rfl
          exact hnot ha
        rw [Memory.erase_cells, Function.update_of_ne hne, hsame₁ a ha]
      have hl₂ : Segment L (m₁.erase x.1).cells l none :=
        hl.congr fun a ha => hsame₂ a (List.mem_append_left _ (mem_blocks_of_mem_addresses ha))
      obtain ⟨m', hrun, howns', hsame', href'⟩ := ih howns₁.free hl₂ hlen
      refine ⟨m', ?_, howns', ?_, ?_⟩
      · show disposeAll L release (n + 1) (some x.1) m = _
        rw [disposeAll, bind_ok (L.get_ok hx)]
        dsimp only
        rw [bind_ok hrun₁, bind_ok (free_ok hv)]
        exact hrun
      · intro a ha
        rw [hsame' a ha, hsame₂ a (List.mem_append_right _ ha)]
      · rw [href', Memory.erase_answers, href₁]

end Cells

end Blocks

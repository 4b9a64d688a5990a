/-
# What each function of `iface_list.c` does in memory

`Represents` connects the blocks with the list of `IfaceList`: the nodes, linked in their
order, with their seven strings, and no other block.  One specification for each function
says that it keeps this, with the list that the function of `IfaceList` gives, where the
answers of the allocator are the outcomes of the allocations.
-/
import RouterTools.IfaceBlocks
import RouterTools.IfaceMemory

namespace IfaceMemory

open Blocks Iface CString IfaceParser

variable {P : Type}

/-! ## The list in memory -/

/-- A node of the list, where it and its strings stand. -/
structure Placed (P : Type) where
  address : P
  texts : Fields P
  node : Node

/-- The node in its block. -/
def Placed.block (x : Placed P) : P × Fields (Option P) := (x.address, x.texts.map some)

/-- The strings of a node, where they stand. -/
def Placed.strings (x : Placed P) : List (P × CString) :=
  [(x.texts.name, x.node.name), (x.texts.mac, x.node.mac), (x.texts.ipv4, x.node.ipv4),
    (x.texts.bcast, x.node.bcast), (x.texts.mask, x.node.mask), (x.texts.ipv6, x.node.ipv6),
    (x.texts.status, x.node.status)]

/-- What a node owns besides its own block. -/
def owned (fields : Fields (Option P)) : List P :=
  fields.name.toList ++ (fields.mac.toList ++ (fields.ipv4.toList ++ (fields.bcast.toList ++
    (fields.mask.toList ++ (fields.ipv6.toList ++ fields.status.toList)))))

/-- The nodes and their strings are there. -/
structure Holds (cells : P → Option (Block P)) (ns : List (Placed P)) : Prop where
  linked : Segment nodes cells (ns.map Placed.block) none
  texts : ∀ x ∈ ns, ∀ y ∈ x.strings, cells y.1 = some (.text y.2)

/-- The blocks of the list, besides which the memory is `frame`. -/
structure Represents (frame cells : P → Option (Block P)) (ns : List (Placed P)) : Prop
    extends Holds cells ns where
  owns : Owns frame cells (blocks owned (ns.map Placed.block))

/-- The pointer to the list. -/
def headOf (ns : List (Placed P)) : Option P := first (ns.map Placed.block) none

/-- The list the nodes stand for. -/
def listOf (ns : List (Placed P)) : List Node := ns.map Placed.node

variable {M : Machine P} {frame cells cells' : P → Option (Block P)} {m m' : Memory P (Block P)}
  {ns before after : List (Placed P)} {x : Placed P}

theorem owned_block (x : Placed P) : owned x.block.2 = x.strings.map Prod.fst := rfl

theorem string_mem {y : P × CString} (hx : x ∈ ns) (hy : y ∈ x.strings) :
    y.1 ∈ blocks owned (ns.map Placed.block) := by
  refine List.mem_flatMap.mpr ⟨x.block, List.mem_map_of_mem hx, List.mem_cons_of_mem _ ?_⟩
  rw [owned_block]
  exact List.mem_map_of_mem hy

/-- Only the blocks of the list matter. -/
theorem Holds.congr (h : Holds cells ns)
    (hsame : ∀ a ∈ blocks owned (ns.map Placed.block), cells' a = cells a) : Holds cells' ns where
  linked := h.linked.congr fun a ha => hsame a (mem_blocks_of_mem_addresses ha)
  texts := fun x hx y hy => by rw [hsame y.1 (string_mem hx hy), h.texts x hx y hy]

/-- A string does not stand at a node. -/
theorem Holds.string_ne (h : Holds cells ns) {y : P × CString} (hx : x ∈ ns) (hy : y ∈ x.strings)
    {a : P} (ha : a ∈ addresses (ns.map Placed.block)) : y.1 ≠ a := by
  rintro rfl
  have htext := h.texts x hx y hy
  obtain ⟨d, r, hnode⟩ := h.linked.exists_node ha
  rw [hnode] at htext
  cases htext

/-- Fresh blocks do not touch the list. -/
theorem Represents.fresh (h : Represents frame m.cells ns) {as : List P}
    (howns : Owns m.cells m'.cells as) : Holds m'.cells ns := by
  refine h.toHolds.congr fun a ha => howns.others a fun hmem => ?_
  obtain ⟨v, hv⟩ := h.owns.there a ha
  rw [howns.new a hmem] at hv
  cases hv

/-! ## Searching -/

theorem hasName_ok (name : CString) (hx : ∀ y ∈ x.strings, m.cells y.1 = some (.text y.2)) :
    hasName name x.block.2 m = (.ok (decide (x.node.name = name)), m) := by
  have hread : read Block.asText x.block.2.name m = (.ok x.node.name, m) :=
    read_ok (hx _ List.mem_cons_self) rfl
  rw [hasName, if_neg (by simp [Placed.block, Fields.map]), bind_ok hread]
  rfl

/-- The search stops in front of the first node of the name. -/
theorem search_ok (h : Holds m.cells (before ++ after)) {name : CString}
    (hbefore : name ∉ names (listOf before)) (hafter : ∀ x ∈ after.head?, x.node.name = name)
    (hfuel : before.length < M.fuel) (prev : Option P) :
    search M name prev (headOf (before ++ after)) m =
      (.ok (lastOr prev (before.map Placed.block), headOf after), m) := by
  rw [search, headOf, headOf, List.map_append]
  refine walk_ok _ _ (by rw [← List.map_append]; exact h.linked) ?_ ?_ (by simpa using hfuel) prev
  · intro y hy
    obtain ⟨x, hx, rfl⟩ := List.mem_map.mp hy
    have hne : x.node.name ≠ name := by
      rintro rfl
      exact hbefore (List.mem_map_of_mem (List.mem_map_of_mem hx))
    rw [bind_ok (hasName_ok name (h.texts x (List.mem_append_left _ hx))), decide_eq_false hne]
    rfl
  · intro y hy
    rw [List.head?_map, Option.mem_def, Option.map_eq_some_iff] at hy
    obtain ⟨x, hx, rfl⟩ := hy
    have hmem : x ∈ before ++ after := List.mem_append_right _ (List.mem_of_head? hx)
    rw [bind_ok (hasName_ok name (h.texts x hmem)), decide_eq_true (hafter x hx)]
    rfl

theorem search_absent (h : Holds m.cells ns) {name : CString} (hname : name ∉ names (listOf ns))
    (hfuel : ns.length < M.fuel) (prev : Option P) :
    search M name prev (headOf ns) m = (.ok (lastOr prev (ns.map Placed.block), none), m) := by
  have hns : Holds m.cells (ns ++ []) := by rwa [List.append_nil]
  have hsearch := search_ok hns hname (fun x hx => by cases hx) hfuel prev
  rwa [List.append_nil] at hsearch

/-- A list with the name in it, cut at its first node. -/
theorem exists_cut {name : CString} (hname : name ∈ names (listOf ns)) :
    ∃ before x after, ns = before ++ x :: after ∧ x.node.name = name ∧
      name ∉ names (listOf before) := by
  induction ns with
  | nil => cases hname
  | cons y ns ih =>
      by_cases hy : y.node.name = name
      · exact ⟨[], y, ns, rfl, hy, List.not_mem_nil⟩
      · obtain ⟨before, x, after, rfl, hx, hbefore⟩ :=
          ih ((List.mem_cons.mp hname).resolve_left (Ne.symm hy))
        refine ⟨y :: before, x, after, rfl, hx, ?_⟩
        rw [listOf, names, List.map_cons, List.map_cons, List.mem_cons, not_or]
        exact ⟨Ne.symm hy, hbefore⟩

/-- **`_list_contains_name`.** -/
theorem listContainsName_ok (h : Holds m.cells ns) (hfuel : ns.length < M.fuel) (name : CString) :
    listContainsName M (headOf ns) name m =
      (.ok (Iface.listContainsName (listOf ns) name), m) := by
  by_cases hname : name ∈ names (listOf ns)
  · rw [listContainsName_iff.mpr hname]
    obtain ⟨before, x, after, rfl, hx, hbefore⟩ := exists_cut hname
    rw [List.length_append] at hfuel
    have hsearch := search_ok (M := M) h hbefore (fun y hy => by cases hy; exact hx) (by omega) none
    rw [listContainsName, bind_ok hsearch]
    rfl
  · rw [listContainsName_eq_false_iff.mpr hname, listContainsName,
      bind_ok (search_absent h hname hfuel none)]
    rfl

/-! ## Freeing -/

variable [DecidableEq P]

/-- A pointer of a node is freed, NULL or not. -/
theorem free_field {p : Option P} {rest : List P} (h : Owns frame m.cells (p.toList ++ rest)) :
    ∃ m', free p m = (.ok (), m') ∧ Owns frame m'.cells rest ∧
      (∀ a ∈ rest, m'.cells a = m.cells a) ∧ m'.answers = m.answers := by
  cases p with
  | none => exact ⟨m, rfl, h, fun _ _ => rfl, rfl⟩
  | some p =>
      obtain ⟨v, hv⟩ := h.there p List.mem_cons_self
      refine ⟨m.erase p, free_ok hv, h.free, fun a ha => Function.update_of_ne ?_ _ _, rfl⟩
      rintro rfl
      exact (List.nodup_cons.mp h.nodup).1 ha

/-- **`_free_node_data`** frees the strings of the node, each once. -/
theorem freeNodeData_ok {p : P} {d : Fields (Option P)} {q : Option P} {rest : List P}
    (h : Owns frame m.cells (p :: (owned d ++ rest))) (hp : m.cells p = some (nodes.node d q)) :
    ∃ m' v, freeNodeData (some p) m = (.ok (), m') ∧ Owns frame m'.cells (p :: rest) ∧
      (∀ a ∈ rest, m'.cells a = m.cells a) ∧ m'.cells p = some v ∧ m'.answers = m.answers := by
  have h₀ : Owns frame m.cells (owned d ++ p :: rest) := h.perm List.perm_middle.symm
  simp only [owned, List.append_assoc] at h₀
  obtain ⟨m₁, hrun₁, h₁, hsame₁, href₁⟩ := free_field h₀
  obtain ⟨m₂, hrun₂, h₂, hsame₂, href₂⟩ := free_field h₁
  obtain ⟨m₃, hrun₃, h₃, hsame₃, href₃⟩ := free_field h₂
  obtain ⟨m₄, hrun₄, h₄, hsame₄, href₄⟩ := free_field h₃
  obtain ⟨m₅, hrun₅, h₅, hsame₅, href₅⟩ := free_field h₄
  obtain ⟨m₆, hrun₆, h₆, hsame₆, href₆⟩ := free_field h₅
  obtain ⟨m₇, hrun₇, h₇, hsame₇, href₇⟩ := free_field h₆
  have hsame : ∀ a ∈ p :: rest, m₇.cells a = m.cells a := by
    intro a ha
    rw [hsame₇ a ha, hsame₆ a (by simp [ha]), hsame₅ a (by simp [ha]), hsame₄ a (by simp [ha]),
      hsame₃ a (by simp [ha]), hsame₂ a (by simp [ha]), hsame₁ a (by simp [ha])]
  have hp₇ : m₇.cells p = some (nodes.node d q) := by rw [hsame p List.mem_cons_self, hp]
  refine ⟨m₇.set p (nodes.node ⟨none, none, none, none, none, none, none⟩ q), _, ?_,
    h₇.set List.mem_cons_self _, fun a ha => ?_, Function.update_self _ _ _, ?_⟩
  · rw [freeNodeData, if_neg (by simp), bind_ok (nodes.get_ok hp)]
    dsimp only
    rw [bind_ok hrun₁, bind_ok hrun₂, bind_ok hrun₃, bind_ok hrun₄, bind_ok hrun₅, bind_ok hrun₆,
      bind_ok hrun₇]
    exact nodes.modify_ok hp₇ _
  · have hne : a ≠ p := by
      rintro rfl
      exact (List.nodup_cons.mp h₇.nodup).1 ha
    exact (Function.update_of_ne hne _ _).trans (hsame a (List.mem_cons_of_mem p ha))
  · exact href₇.trans (href₆.trans (href₅.trans (href₄.trans (href₃.trans (href₂.trans href₁)))))

/-- A node is freed with its strings. -/
theorem deleteNode_ok {p : P} {d : Fields (Option P)} {q : Option P} {rest : List P}
    (h : Owns frame m.cells (p :: (owned d ++ rest))) (hp : m.cells p = some (nodes.node d q)) :
    ∃ m', deleteNode (some p) m = (.ok (), m') ∧ Owns frame m'.cells rest ∧
      (∀ a ∈ rest, m'.cells a = m.cells a) ∧ m'.answers = m.answers := by
  obtain ⟨m₁, v, hrun, h₁, hsame, hv, href⟩ := freeNodeData_ok h hp
  refine ⟨m₁.erase p, ?_, h₁.free, fun a ha => ?_, href⟩
  · rw [deleteNode, bind_ok hrun]
    exact free_ok hv
  · have hne : a ≠ p := by
      rintro rfl
      exact (List.nodup_cons.mp h₁.nodup).1 ha
    exact (Function.update_of_ne hne _ _).trans (hsame a ha)

/-! ## A new node -/

/-- A node that is being filled: the strings copied so far, the last one first, and NULL in the
other fields. -/
structure Filling (frame cells : P → Option (Block P)) (q : P) (fields : Fields (Option P))
    (copies : List (P × CString)) : Prop where
  node : cells q = some (nodes.node fields none)
  texts : ∀ y ∈ copies, cells y.1 = some (.text y.2)
  owned : (owned fields).Perm (copies.map Prod.fst)
  owns : Owns frame cells (q :: copies.map Prod.fst)

/-- **One string of a node**: it is copied, or the whole node is given back. -/
theorem copyField_ends {q : P} {fields : Fields (Option P)} {copies : List (P × CString)}
    {put : Option P → Fields (Option P) → Fields (Option P)} {s : CString}
    {rest : Prog P (Block P) (Option P)} {Q : Option P → Memory P (Block P) → Prop}
    {E : Fault → Memory P (Block P) → Prop} (h : Filling frame m.cells q fields copies)
    (hnull : put none fields = fields)
    (hput : ∀ t, (owned (put (some t) fields)).Perm (t :: owned fields))
    (hrefused : ∀ m', m'.cells = frame → Answered [false] m m' → Q none m')
    (hrest : ∀ t m', Filling frame m'.cells q (put (some t) fields) ((t, s) :: copies) →
      Answered [true] m m' → Ends rest m' Q E) :
    Ends (copyField M (some q) put s rest) m Q E := by
  refine ends_bind_malloc _ _ (fun m₁ hcells₁ hused₁ => ?_) fun t m₁ ht hcells₁ hused₁ => ?_
  · -- refused: the node is as it was, and goes
    have hnode : m₁.cells q = some (nodes.node fields none) := by rw [hcells₁, h.node]
    refine ends_bind_ok (nodes.modify_ok hnode _) ?_
    rw [hnull]
    have howns : Owns frame (m₁.set q (nodes.node fields none)).cells
        (q :: (owned fields ++ [])) := by
      rw [Memory.set_cells, hcells₁, List.append_nil]
      exact (h.owns.set List.mem_cons_self _).perm (List.Perm.cons q h.owned.symm)
    obtain ⟨m₂, v, hrun, howns₂, -, hv, href₂⟩ := freeNodeData_ok howns (Function.update_self _ _ _)
    refine ends_bind_ok hrun (ends_bind_ok (free_ok hv) (ends_of_ok rfl ?_))
    exact hrefused _ howns₂.free.eq_of_nil (hused₁.congr rfl href₂)
  · have hout := h.owns.not_mem ht
    have hne : q ≠ t := by
      rintro rfl
      exact hout List.mem_cons_self
    have hnode : m₁.cells q = some (nodes.node fields none) := by
      rw [hcells₁, Function.update_of_ne hne, h.node]
    refine ends_bind_ok (nodes.modify_ok hnode _) ?_
    refine hrest t _ ⟨Function.update_self _ _ _, ?_, ?_, ?_⟩ hused₁
    · refine List.forall_mem_cons.mpr ⟨?_, fun y hy => ?_⟩
      · rw [Memory.set_cells, Function.update_of_ne hne.symm, hcells₁, Function.update_self]
      · have hmem : y.1 ∈ copies.map Prod.fst := List.mem_map_of_mem hy
        have hyq : y.1 ≠ q := by
          rintro heq
          exact (List.nodup_cons.mp h.owns.nodup).1 (heq ▸ hmem)
        have hyt : y.1 ≠ t := by
          rintro heq
          exact hout (List.mem_cons_of_mem _ (heq ▸ hmem))
        rw [Memory.set_cells, Function.update_of_ne hyq, hcells₁, Function.update_of_ne hyt,
          h.texts y hy]
    · exact (hput t).trans (List.Perm.cons t h.owned)
    · rw [Memory.set_cells, hcells₁]
      refine ((h.owns.alloc ht _).set (by simp) _).perm ?_
      exact List.Perm.swap q t _

/-- What `_create_node_internal` ends in, with the answers of the allocator: NULL, with nothing
left, or a node with its strings. -/
def Created (m : Memory P (Block P)) (args : Fields (Option CString)) (newNode : Option P)
    (m' : Memory P (Block P)) : Prop :=
  ∃ used, Answered used m m' ∧
    ((newNode = none ∧ m'.cells = m.cells ∧
        ∀ heap, Iface.createNodeInternal args (used ++ heap) = (none, heap)) ∨
      (∃ x : Placed P, newNode = some x.address ∧
        m'.cells x.address = some (nodes.node x.block.2 none) ∧
        (∀ y ∈ x.strings, m'.cells y.1 = some (.text y.2)) ∧
        Owns m.cells m'.cells (x.address :: owned x.block.2) ∧
        ∀ heap, Iface.createNodeInternal args (used ++ heap) = (some x.node, heap)))

/-- **`_create_node_internal`.** -/
theorem createNodeInternal_ends (m : Memory P (Block P)) (args : Fields (Option CString)) :
    Ends (createNodeInternal M args) m (Created m args) (fun _ _ => False) := by
  refine ends_bind_malloc _ _ (fun m₁ hcells₁ hused₁ => ?_) fun q m₁ hq hcells₁ hused₁ => ?_
  · exact ends_of_ok rfl ⟨[false], hused₁, .inl ⟨rfl, hcells₁, fun heap => rfl⟩⟩
  · have hnode : m₁.cells q = some (nodes.node M.junkFields M.junkNext) := by
      rw [hcells₁, Function.update_self]
      rfl
    refine ends_bind_ok (nodes.modify_ok hnode _) ?_
    refine ends_bind_ok (nodes.setNext_ok (Function.update_self _ _ _) _) ?_
    rw [Memory.set_set]
    have hfilling : Filling m.cells
        (m₁.set q (nodes.node ⟨none, none, none, none, none, none, none⟩ none)).cells q
        ⟨none, none, none, none, none, none, none⟩ [] := by
      refine ⟨Function.update_self _ _ _, fun y hy => (List.not_mem_nil hy).elim,
        List.Perm.nil, ?_⟩
      rw [Memory.set_cells, hcells₁]
      exact ((owns_nil m.cells).alloc hq _).set List.mem_cons_self _
    -- the copies are refused at the first, at the second, ..., or all of them are made
    have hgiven : ∀ {k : ℕ} {m₂ m₃ : Memory P (Block P)}, Answered (List.replicate k true) m m₂ →
        m₃.cells = m.cells → Answered [false] m₂ m₃ →
        (∀ heap, Iface.createNodeInternal args ((List.replicate k true ++ [false]) ++ heap) =
          (none, heap)) → Created m args none m₃ := by
      intro k m₂ m₃ hused hcells hrefused hcreate
      exact ⟨_, hused.trans hrefused, .inl ⟨rfl, hcells, hcreate⟩⟩
    refine copyField_ends hfilling rfl (fun t => List.Perm.refl _)
      (fun m' hc hr => hgiven (k := 1) hused₁ hc hr fun heap => rfl) ?_
    intro t₁ m₂ h₂ hnew₂
    have hused₂ : Answered (List.replicate 2 true) m m₂ := hused₁.trans hnew₂
    refine copyField_ends h₂ rfl (fun t => List.perm_append_singleton t [t₁])
      (fun m' hc hr => hgiven (k := 2) hused₂ hc hr fun heap => rfl) ?_
    intro t₂ m₃ h₃ hnew₃
    have hused₃ : Answered (List.replicate 3 true) m m₃ := hused₂.trans hnew₃
    refine copyField_ends h₃ rfl (fun t => List.perm_append_singleton t [t₁, t₂])
      (fun m' hc hr => hgiven (k := 3) hused₃ hc hr fun heap => rfl) ?_
    intro t₃ m₄ h₄ hnew₄
    have hused₄ : Answered (List.replicate 4 true) m m₄ := hused₃.trans hnew₄
    refine copyField_ends h₄ rfl (fun t => List.perm_append_singleton t [t₁, t₂, t₃])
      (fun m' hc hr => hgiven (k := 4) hused₄ hc hr fun heap => rfl) ?_
    intro t₄ m₅ h₅ hnew₅
    have hused₅ : Answered (List.replicate 5 true) m m₅ := hused₄.trans hnew₅
    refine copyField_ends h₅ rfl (fun t => List.perm_append_singleton t [t₁, t₂, t₃, t₄])
      (fun m' hc hr => hgiven (k := 5) hused₅ hc hr fun heap => rfl) ?_
    intro t₅ m₆ h₆ hnew₆
    have hused₆ : Answered (List.replicate 6 true) m m₆ := hused₅.trans hnew₆
    refine copyField_ends h₆ rfl (fun t => List.perm_append_singleton t [t₁, t₂, t₃, t₄, t₅])
      (fun m' hc hr => hgiven (k := 6) hused₆ hc hr fun heap => rfl) ?_
    intro t₆ m₇ h₇ hnew₇
    have hused₇ : Answered (List.replicate 7 true) m m₇ := hused₆.trans hnew₇
    refine copyField_ends h₇ rfl (fun t => List.perm_append_singleton t [t₁, t₂, t₃, t₄, t₅, t₆])
      (fun m' hc hr => hgiven (k := 7) hused₇ hc hr fun heap => rfl) ?_
    intro t₇ m₈ h₈ hnew₈
    have hused₈ : Answered (List.replicate 8 true) m m₈ := hused₇.trans hnew₈
    let x : Placed P := ⟨q, ⟨t₁, t₂, t₃, t₄, t₅, t₆, t₇⟩, ⟨args.name.getD [], args.mac.getD [],
      args.ipv4.getD [], args.bcast.getD [], args.mask.getD [], args.ipv6.getD [],
      args.status.getD (str "UNKNOWN")⟩⟩
    refine ends_of_ok rfl ⟨_, hused₈, .inr ⟨x, rfl, h₈.node, fun y hy => ?_, ?_, fun heap => rfl⟩⟩
    · have hcopies := h₈.texts
      exact hcopies y (List.mem_reverse.mp hy)
    · exact h₈.owns.perm (List.Perm.cons q h₈.owned.symm)

/-! ## Adding -/

/-- **`_append`** links the new node in behind the last one. -/
theorem append_ok (h : Represents frame m.cells ns) {m₁ : Memory P (Block P)}
    (hnode : m₁.cells x.address = some (nodes.node x.block.2 none))
    (htexts : ∀ y ∈ x.strings, m₁.cells y.1 = some (.text y.2))
    (howns : Owns m.cells m₁.cells (x.address :: owned x.block.2)) (hfuel : ns.length < M.fuel) :
    ∃ m', append M (headOf ns) (some x.address) m₁ = (.ok (headOf (ns ++ [x])), m') ∧
      Represents frame m'.cells (ns ++ [x]) ∧ m'.answers = m₁.answers := by
  have hholds := h.fresh howns
  have hall : Owns frame m₁.cells (blocks owned ((ns ++ [x]).map Placed.block)) := by
    refine (h.owns.trans howns).perm ?_
    rw [List.map_append, Blocks.blocks_append]
    refine List.perm_append_comm.trans (List.Perm.append_left _ ?_)
    rw [List.map_singleton, blocks_cons, blocks_nil, List.append_nil]
    exact List.Perm.refl _
  rcases List.eq_nil_or_concat' ns with rfl | ⟨l, y, rfl⟩
  · refine ⟨m₁, rfl, ⟨⟨⟨hnode, trivial⟩, ?_⟩, hall⟩, rfl⟩
    intro z hz
    rw [List.mem_singleton.mp hz]
    exact htexts
  · have hlinked := hholds.linked
    rw [List.map_append] at hlinked
    have hy : m₁.cells y.address = some (nodes.node y.block.2 none) :=
      (segment_append.mp hlinked).2.1
    have hlast : findLast nodes M.fuel (headOf (l ++ [y])) m₁ = (.ok (some y.address), m₁) := by
      rw [headOf, List.map_append]
      refine findLast_ok (l.map Placed.block) (x := y.block) hlinked ?_
      rw [List.length_append] at hfuel
      rw [List.length_map]
      omega
    have hhead : (headOf (l ++ [y])).isNone = false := by cases l <;> rfl
    have hsame : headOf (l ++ [y] ++ [x]) = headOf (l ++ [y]) := by cases l <;> rfl
    have hyin : y.address ∈ addresses ((l ++ [y]).map Placed.block) := by
      simp [addresses, Placed.block]
    have hnodup := h.owns.nodup.sublist (addresses_sublist owned _)
    rw [List.map_append, addresses_append, List.nodup_append] at hnodup
    have hyout : y.address ∉ addresses (l.map Placed.block) := fun hmem =>
      hnodup.2.2 _ hmem _ List.mem_cons_self rfl
    have hynew : y.address ∉ x.address :: owned x.block.2 := by
      intro hmem
      obtain ⟨v, hv⟩ := h.owns.there _ (mem_blocks_of_mem_addresses hyin)
      rw [howns.new _ hmem] at hv
      cases hv
    have hrelinked : Segment nodes
        (m₁.set y.address (nodes.node y.block.2 (some x.address))).cells
        ((l ++ [y]).map Placed.block) (some x.address) := by
      rw [List.map_append]
      exact hlinked.relink hyout _
    refine ⟨m₁.set y.address (nodes.node y.block.2 (some x.address)), ?_, ⟨⟨?_, ?_⟩, ?_⟩, rfl⟩
    · rw [append, hhead, if_neg Bool.false_ne_true, bind_ok hlast,
        bind_ok (nodes.setNext_ok hy _), hsame]
      rfl
    · rw [List.map_append]
      refine segment_append.mpr ⟨hrelinked, ?_, trivial⟩
      have hne : x.address ≠ y.address := fun heq => hynew (heq ▸ List.mem_cons_self)
      rw [Memory.set_cells]
      exact (Function.update_of_ne hne _ _).trans hnode
    · intro z hz w hw
      rcases List.mem_append.mp hz with hz | hz
      · rw [Memory.set_cells, Function.update_of_ne (hholds.string_ne hz hw hyin)]
        exact hholds.texts z hz w hw
      · rw [List.mem_singleton.mp hz] at hw
        have hne : w.1 ≠ y.address := by
          rintro heq
          rw [owned_block] at hynew
          exact hynew (heq ▸ List.mem_cons_of_mem _ (List.mem_map_of_mem hw))
        rw [Memory.set_cells, Function.update_of_ne hne]
        exact htexts w hw
    · refine hall.set ?_ _
      rw [List.map_append, Blocks.blocks_append]
      exact List.mem_append_left _ (mem_blocks_of_mem_addresses hyin)

/-- **`list_add`** does what it does to the list, with the answers of the allocator. -/
theorem listAdd_ends (h : Represents frame m.cells ns) (hfuel : ns.length < M.fuel)
    (args : Fields (Option CString)) :
    Ends (listAdd M (headOf ns) args) m
      (fun head m' => ∃ used ns', head = headOf ns' ∧ Represents frame m'.cells ns' ∧
        ns'.length ≤ ns.length + 1 ∧ Answered used m m' ∧
        ∀ heap, Iface.listAdd (listOf ns) args (used ++ heap) = (listOf ns', heap))
      (fun _ _ => False) := by
  refine Ends.bind (createNodeInternal_ends m args) ?_
  rintro newNode m₁ ⟨used, hused, ⟨rfl, hcells, hcreate⟩ | ⟨x, rfl, hnode, htexts, howns, hcreate⟩⟩
  · rw [← hcells] at h
    refine ends_of_ok rfl ⟨used, ns, rfl, h, Nat.le_succ _, hused, fun heap => ?_⟩
    rw [Iface.listAdd, hcreate heap]
  · obtain ⟨m', hrun, hrep, href⟩ := append_ok (M := M) h hnode htexts howns hfuel
    refine ends_of_ok hrun ⟨used, ns ++ [x], rfl, hrep, ?_, hused.congr rfl href, fun heap => ?_⟩
    · rw [List.length_append, List.length_singleton]
    · rw [Iface.listAdd, hcreate heap]
      simp only [append_eq, listOf, List.map_append, List.map_cons, List.map_nil]

/-! ## Deleting -/

omit [DecidableEq P] in
theorem blocks_cut (before after : List (Placed P)) (x : Placed P) :
    (blocks owned ((before ++ x :: after).map Placed.block)).Perm
      (x.address :: (owned x.block.2 ++ blocks owned ((before ++ after).map Placed.block))) := by
  rw [List.map_append, List.map_append, List.map_cons]
  exact blocks_middle owned _ x.block _

/-- A node that is linked no more is freed; the others stay. -/
theorem deleteNode_represents {m₁ : Memory P (Block P)} {q : Option P}
    (hnode : m₁.cells x.address = some (nodes.node x.block.2 q))
    (hholds : Holds m₁.cells (before ++ after))
    (howns : Owns frame m₁.cells (blocks owned ((before ++ x :: after).map Placed.block))) :
    ∃ m', deleteNode (some x.address) m₁ = (.ok (), m') ∧
      Represents frame m'.cells (before ++ after) ∧ m'.answers = m₁.answers := by
  obtain ⟨m', hrun, howns', hsame, href⟩ :=
    deleteNode_ok (howns.perm (blocks_cut before after x)) hnode
  exact ⟨m', hrun, ⟨hholds.congr hsame, howns'⟩, href⟩

theorem deleteLoop_cut {name : CString} {l r : List Node} {node : Node} (hnode : node.name = name)
    (hl : name ∉ names l) : deleteLoop name (l ++ node :: r) = some (l ++ r) := by
  induction l with
  | nil => exact if_pos hnode
  | cons current l ih =>
      rw [names, List.map_cons, List.mem_cons, not_or] at hl
      rw [List.cons_append, deleteLoop, if_neg (Ne.symm hl.1), ih hl.2]
      rfl

theorem deleteLoop_absent {name : CString} {l : List Node} (hl : name ∉ names l) :
    deleteLoop name l = none := by
  induction l with
  | nil => rfl
  | cons current l ih =>
      rw [names, List.map_cons, List.mem_cons, not_or] at hl
      rw [deleteLoop, if_neg (Ne.symm hl.1), ih hl.2]
      rfl

/-- **The link behind a part of the list is redirected** past the node that follows it. -/
theorem unlink_ok (h : Represents frame m.cells (before ++ x :: after)) (hne : before ≠ []) :
    ∃ m₁, nodes.setNext (lastOr none (before.map Placed.block)) (headOf after) m = (.ok (), m₁) ∧
      Holds m₁.cells (before ++ after) ∧
      Owns frame m₁.cells (blocks owned ((before ++ x :: after).map Placed.block)) ∧
      m₁.cells x.address = some (nodes.node x.block.2 (headOf after)) ∧
      headOf (before ++ x :: after) = headOf (before ++ after) ∧ m₁.answers = m.answers := by
  obtain ⟨l, z, rfl⟩ : ∃ l z, before = l ++ [z] := (List.eq_nil_or_concat' before).resolve_left hne
  have hlinked := h.linked
  have hnodup := h.owns.nodup.sublist (addresses_sublist owned _)
  rw [List.map_append, List.map_cons] at hlinked
  rw [List.map_append, List.map_cons, addresses_append, addresses_cons, List.nodup_append] at hnodup
  obtain ⟨hbefore, hx, hafter⟩ := segment_append.mp hlinked
  rw [List.map_append] at hbefore hnodup
  have hz : m.cells z.address = some (nodes.node z.block.2 (some x.address)) :=
    (segment_append.mp hbefore).2.1
  have hzin : z.address ∈ addresses (l.map Placed.block ++ [z].map Placed.block) := by
    simp [addresses, Placed.block]
  have hzall : z.address ∈ addresses ((l ++ [z] ++ x :: after).map Placed.block) := by
    simp [addresses, Placed.block]
  have hzl : z.address ∉ addresses (l.map Placed.block) := by
    have hsplit := hnodup.1
    rw [addresses_append, List.nodup_append] at hsplit
    exact fun hmem => hsplit.2.2 _ hmem _ List.mem_cons_self rfl
  have hzx : x.address ≠ z.address := fun heq =>
    hnodup.2.2 _ hzin _ List.mem_cons_self heq.symm
  have hzafter : z.address ∉ addresses (after.map Placed.block) := fun hmem =>
    hnodup.2.2 _ hzin _ (List.mem_cons_of_mem _ hmem) rfl
  refine ⟨m.set z.address (nodes.node z.block.2 (headOf after)), ?_, ⟨?_, ?_⟩,
    h.owns.set (mem_blocks_of_mem_addresses hzall) _, ?_, ?_, rfl⟩
  · rw [List.map_append, List.map_singleton, lastOr_concat]
    exact nodes.setNext_ok hz _
  · rw [List.map_append, List.map_append]
    exact segment_append.mpr ⟨hbefore.relink hzl _, hafter.update hzafter _⟩
  · intro y hy w hw
    have hy' : y ∈ l ++ [z] ++ x :: after := by
      simp only [List.mem_append, List.mem_cons] at hy ⊢
      tauto
    rw [Memory.set_cells, Function.update_of_ne (h.string_ne hy' hw hzall)]
    exact h.texts y hy' w hw
  · exact (Function.update_of_ne hzx _ _).trans hx
  · cases l <;> rfl

/-- **`list_delete`.** -/
theorem listDelete_ends (h : Represents frame m.cells ns) (hfuel : ns.length < M.fuel)
    (deleteName : Option CString) :
    Ends (listDelete M (headOf ns) deleteName) m
      (fun r m' => ∃ ns', r.1 = headOf ns' ∧ Represents frame m'.cells ns' ∧
        ns'.length ≤ ns.length ∧ m'.answers = m.answers ∧
        Iface.listDelete (listOf ns) deleteName = (listOf ns', r.2))
      (fun _ _ => False) := by
  have hunchanged : ∀ {r : Bool}, Iface.listDelete (listOf ns) deleteName = (listOf ns, r) →
      ∃ ns', headOf ns = headOf ns' ∧ Represents frame m.cells ns' ∧ ns'.length ≤ ns.length ∧
        m.answers = m.answers ∧ Iface.listDelete (listOf ns) deleteName = (listOf ns', r) :=
    fun hdelete => ⟨ns, rfl, h, Nat.le_refl _, rfl, hdelete⟩
  rcases ns with - | ⟨x, after⟩
  · exact ends_of_ok rfl (hunchanged (by cases deleteName <;> rfl))
  · rcases deleteName with - | name
    · exact ends_of_ok rfl (hunchanged rfl)
    · obtain ⟨hx, hlinked⟩ := h.linked
      have hread := hasName_ok name (h.texts x List.mem_cons_self)
      refine ends_bind_ok (nodes.get_ok hx) (ends_bind_ok hread ?_)
      by_cases hname : x.node.name = name
      · -- the first node
        rw [if_pos (decide_eq_true hname)]
        have hrest : Holds m.cells ([] ++ after) :=
          ⟨hlinked, fun y hy => h.texts y (List.mem_cons_of_mem x hy)⟩
        obtain ⟨m', hrun, hrep, href⟩ : ∃ m', deleteNode (some x.address) m = (.ok (), m') ∧
            Represents frame m'.cells ([] ++ after) ∧ m'.answers = m.answers :=
          deleteNode_represents hx hrest h.owns
        refine ends_bind_ok hrun (ends_of_ok rfl ⟨after, rfl, hrep, Nat.le_succ _, href, ?_⟩)
        rw [listOf, List.map_cons, Iface.listDelete, if_pos hname]
        rfl
      · rw [if_neg (by simp [hname])]
        rw [List.length_cons] at hfuel
        have hafter : Holds m.cells after :=
          ⟨hlinked, fun y hy => h.texts y (List.mem_cons_of_mem x hy)⟩
        by_cases hin : name ∈ names (listOf after)
        · -- a later node
          obtain ⟨l, y, r, rfl, hy, hl⟩ := exists_cut hin
          rw [List.length_append] at hfuel
          have hsearch := search_ok (M := M) hafter hl (fun z hz => by cases hz; exact hy)
            (by omega) (some x.address)
          have hrep : Represents frame m.cells ((x :: l) ++ y :: r) := h
          obtain ⟨m₁, hrun₁, hholds₁, howns₁, hnode₁, hhead, href₁⟩ :=
            unlink_ok hrep (List.cons_ne_nil x l)
          obtain ⟨m', hrun, hrep', href⟩ := deleteNode_represents hnode₁ hholds₁ howns₁
          have hget : m.cells y.address = some (nodes.node y.block.2 (headOf r)) := by
            have hlinked' := hafter.linked
            rw [List.map_append, List.map_cons] at hlinked'
            exact hlinked'.getNode
          refine ends_bind_ok hsearch (ends_bind_ok (nodes.get_ok hget) (ends_bind_ok hrun₁ ?_))
          refine ends_bind_ok hrun (ends_of_ok rfl ⟨x :: l ++ r, hhead, hrep', ?_,
            href.trans href₁, ?_⟩)
          · simp only [List.length_append, List.length_cons]
            omega
          · have hcut : deleteLoop name (listOf (l ++ y :: r)) = some (listOf (l ++ r)) := by
              rw [listOf, listOf, List.map_append, List.map_cons, List.map_append]
              exact deleteLoop_cut hy hl
            show Iface.listDelete (x.node :: listOf (l ++ y :: r)) (some name) =
              (x.node :: listOf (l ++ r), true)
            rw [Iface.listDelete, if_neg hname, hcut]
        · have hsearch := search_absent (M := M) hafter hin (by omega) (some x.address)
          refine ends_bind_ok hsearch (ends_of_ok rfl (hunchanged ?_))
          show Iface.listDelete (x.node :: listOf after) (some name) =
            (x.node :: listOf after, false)
          rw [Iface.listDelete, if_neg hname, deleteLoop_absent hin]

end IfaceMemory

/-
# The interface list of `iface_list.c`

The list is the chain of nodes from the head pointer.  A `Node` exists only once all of
its seven strings are allocated, so its fields are strings; the arguments of `list_add`
are pointers, which may be NULL.  `malloc` and `strdup` take their outcomes, in the
order of the calls, from an `Alloc`.
-/
import RouterTools.IfaceParser

/-- The seven fields of `struct Node`, in its order. -/
structure Fields (β : Type*) where
  name : β
  mac : β
  ipv4 : β
  bcast : β
  mask : β
  ipv6 : β
  status : β
  deriving DecidableEq, Repr

/-- The same function on every field. -/
def Fields.map {β γ : Type*} (f : β → γ) (x : Fields β) : Fields γ :=
  ⟨f x.name, f x.mac, f x.ipv4, f x.bcast, f x.mask, f x.ipv6, f x.status⟩

namespace Iface

open CString IfaceParser

/-- A node of the list: seven allocated strings. -/
abbrev Node := Fields CString

/-- The names in the list, in order. -/
def names (head : List Node) : List CString := head.map Fields.name

/-! ## Allocation -/

/-- Outcomes of the calls of `malloc` and `strdup` still to come; past the end of the
list all of them succeed. -/
abbrev Alloc := List Bool

/-- One allocation. -/
def alloc : Alloc → Bool × Alloc
  | [] => (true, [])
  | ok :: heap => (ok, heap)

/-- `n` allocations in a row, up to the first that fails. -/
def allocs : ℕ → Alloc → Bool × Alloc
  | 0, heap => (true, heap)
  | n + 1, heap =>
      match alloc heap with
      | (false, heap) => (false, heap)
      | (true, heap) => allocs n heap

/-! ## The list functions of the source -/

/-- `_list_contains_name`. -/
def listContainsName : List Node → CString → Bool
  | [], _ => false
  | current :: next, name => if current.name = name then true else listContainsName next name

/-- `_create_node_internal`: one `malloc` and seven `strdup`, with the texts that stand
for a NULL argument. -/
def createNodeInternal (args : Fields (Option CString)) (heap : Alloc) : Option Node × Alloc :=
  match allocs 8 heap with
  | (false, heap) => (none, heap)
  | (true, heap) =>
      (some
        { name := args.name.getD []
          mac := args.mac.getD []
          ipv4 := args.ipv4.getD []
          bcast := args.bcast.getD []
          mask := args.mask.getD []
          ipv6 := args.ipv6.getD []
          status := args.status.getD (str "UNKNOWN") }, heap)

/-- `_append`. -/
def append : List Node → Node → List Node
  | [], newNode => [newNode]
  | last :: next, newNode => last :: append next newNode

/-- `list_add`. -/
def listAdd (head : List Node) (args : Fields (Option CString)) (heap : Alloc) :
    List Node × Alloc :=
  match createNodeInternal args heap with
  | (some newNode, heap) => (append head newNode, heap)
  | (none, heap) => (head, heap)

/-- `list_search`. -/
def listSearch : List Node → Option CString → Option Node
  | [], _ => none
  | current :: next, searchName =>
      if some current.name = searchName then some current else listSearch next searchName

/-- The second loop of `list_delete`: the chain after `previous`, with the node unlinked. -/
def deleteLoop (deleteName : CString) : List Node → Option (List Node)
  | [] => none
  | current :: next =>
      if current.name = deleteName then some next
      else (deleteLoop deleteName next).map (current :: ·)

/-- `list_delete`. -/
def listDelete (head : List Node) (deleteName : Option CString) : List Node × Bool :=
  match head, deleteName with
  | [], _ => ([], false)
  | head, none => (head, false)
  | temp :: next, some deleteName =>
      if temp.name = deleteName then (next, true)
      else match deleteLoop deleteName next with
        | some next' => (temp :: next', true)
        | none => (temp :: next, false)

/-! ## `parse_data_buffer` -/

/-- The seven local buffers of `parse_data_buffer`. -/
abbrev Buffers := Fields CString

/-- `char name_buf[256], mac_buf[256], ...`. -/
def bufSizes : Fields ℕ := ⟨256, 256, 256, 256, 256, 256, 256⟩

/-- `_reset_temp_buffers`. -/
def resetTempBuffers (sizes : Fields ℕ) (old : Buffers) : Buffers where
  name := clear sizes.name old.name
  mac := clear sizes.mac old.mac
  ipv4 := clear sizes.ipv4 old.ipv4
  bcast := clear sizes.bcast old.bcast
  mask := clear sizes.mask old.mask
  ipv6 := clear sizes.ipv6 old.ipv6
  status := if 0 < sizes.status then str "DOWN" else old.status

/-- A line that opens a block: `!isspace(line[0]) && strstr(line, "Link encap:")`. -/
def isHeader (line : CString) : Bool :=
  !isspace (line.headD 0) && (strstr line (str "Link encap:")).isSome

/-- What stands at both places where a finished interface goes to the list. -/
def flush (head : List Node) (bufs : Buffers) (heap : Alloc) : List Node × Alloc :=
  if bufs.name ≠ [] then
    if listContainsName head bufs.name = false then listAdd head (bufs.map some) heap
    else (head, heap)
  else (head, heap)

/-- The variables of the line loop. -/
structure ParseState where
  head : List Node
  bufs : Buffers
  heap : Alloc

/-- A line of a block that is not its header: the first marker found decides. -/
def parseSubLine (bufs : Buffers) (line : CString) : Buffers :=
  if (strstr line (str "inet addr:")).isSome then
    let parsed := parserIpv4 line ⟨bufSizes.ipv4, bufSizes.bcast, bufSizes.mask⟩
      ⟨bufs.ipv4, bufs.bcast, bufs.mask⟩
    { bufs with ipv4 := parsed.ipv4, bcast := parsed.bcast, mask := parsed.mask }
  else if (strstr line (str "inet6 addr:")).isSome then
    { bufs with ipv6 := parserIpv6 line bufSizes.ipv6 bufs.ipv6 }
  else if (strstr line (str "MTU:")).isSome then
    { bufs with status := parserStatus line bufSizes.status bufs.status }
  else bufs

/-- The body of the line loop. -/
def parseLine (s : ParseState) (line : CString) : ParseState :=
  if isHeader line then
    let (head, heap) := flush s.head s.bufs s.heap
    let bufs := resetTempBuffers bufSizes s.bufs
    { head, heap
      bufs := { bufs with
        name := parserName line bufSizes.name bufs.name
        mac := parserMac line bufSizes.mac bufs.mac } }
  else if s.bufs.name ≠ [] then { s with bufs := parseSubLine s.bufs line }
  else s

/-- The buffers after the first reset; of what the stack held before nothing is left. -/
def emptyBuffers : Buffers := resetTempBuffers bufSizes ⟨[], [], [], [], [], [], []⟩

/-- `parse_data_buffer`: the working copy is the first allocation. -/
def parseDataBuffer (head : List Node) (dataBuffer : Option CString) (heap : Alloc) :
    List Node × Alloc :=
  match dataBuffer with
  | none => (head, heap)
  | some dataBuffer =>
      match alloc heap with
      | (false, heap) => (head, heap)
      | (true, heap) =>
          let s := (strtok dataBuffer (str "\n")).foldl parseLine ⟨head, emptyBuffers, heap⟩
          flush s.head s.bufs s.heap

/-! ## What the functions do -/

theorem listContainsName_iff {head : List Node} {name : CString} :
    listContainsName head name = true ↔ name ∈ names head := by
  induction head with
  | nil => simp [listContainsName, names]
  | cons current next ih =>
      rw [listContainsName, names, List.map_cons, List.mem_cons]
      split
      · rename_i h
        simp only [h, true_or]
      · rename_i h
        rw [ih, names]
        simp only [Ne.symm h, false_or]

theorem listContainsName_eq_false_iff {head : List Node} {name : CString} :
    listContainsName head name = false ↔ name ∉ names head := by
  rw [← listContainsName_iff, Bool.not_eq_true]

theorem append_eq (head : List Node) (newNode : Node) : append head newNode = head ++ [newNode] := by
  induction head with
  | nil => rfl
  | cons last next ih => rw [append, ih, List.cons_append]

/-- `list_add` appends the node with the given strings, or fails and changes nothing. -/
theorem listAdd_some (head : List Node) (args : Node) (heap : Alloc) :
    ∃ heap', listAdd head (args.map some) heap = (head ++ [args], heap') ∨
      listAdd head (args.map some) heap = (head, heap') := by
  unfold listAdd createNodeInternal
  obtain ⟨ok, heap'⟩ := allocs 8 heap
  cases ok with
  | false => exact ⟨heap', .inr rfl⟩
  | true => exact ⟨heap', .inl (by rw [← append_eq]; rfl)⟩

/-- What is flushed is appended when its name is not in the list. -/
theorem flush_cases (head : List Node) (bufs : Buffers) (heap : Alloc) :
    (flush head bufs heap).1 = head ∨
      ((flush head bufs heap).1 = head ++ [bufs] ∧ bufs.name ≠ [] ∧ bufs.name ∉ names head) := by
  unfold flush
  split
  · rename_i hne
    split
    · rename_i hnew
      obtain ⟨heap', h | h⟩ := listAdd_some head bufs heap
      · rw [h]
        exact .inr ⟨rfl, hne, listContainsName_eq_false_iff.mp hnew⟩
      · rw [h]
        exact .inl rfl
    · exact .inl rfl
  · exact .inl rfl

/-- A header takes the finished interface to the list and starts the next one. -/
theorem parseLine_header {s : ParseState} {line : CString} (h : isHeader line = true) :
    parseLine s line =
      ⟨(flush s.head s.bufs s.heap).1,
        { emptyBuffers with name := parserName line 256 [], mac := parserMac line 256 [] },
        (flush s.head s.bufs s.heap).2⟩ := by
  rw [parseLine, if_pos h]
  rfl

/-- Another line changes buffers only. -/
theorem parseLine_not_header {s : ParseState} {line : CString} (h : isHeader line = false) :
    parseLine s line =
      { s with bufs := if s.bufs.name ≠ [] then parseSubLine s.bufs line else s.bufs } := by
  rw [parseLine, if_neg (by simp [h])]
  split <;> rfl

/-- A header line has a name. -/
theorem parserName_header {line : CString} (h : isHeader line = true) :
    parserName line 256 [] ≠ [] := by
  rw [isHeader, Bool.and_eq_true, Bool.not_eq_true'] at h
  cases line with
  | nil => exact absurd h.2 (by decide)
  | cons c line => exact parserName_ne_nil (by omega) h.1 []

/-- `list_search` is the first node of that name. -/
theorem listSearch_eq_find (head : List Node) (name : CString) :
    listSearch head (some name) = head.find? fun node => node.name = name := by
  induction head with
  | nil => rfl
  | cons current next ih =>
      rw [listSearch, ih, List.find?_cons]
      by_cases h : current.name = name
      · simp [h]
      · simp [h]

theorem deleteLoop_cases (name : CString) (chain : List Node) :
    (∃ l node r, chain = l ++ node :: r ∧ node.name = name ∧ name ∉ names l ∧
      deleteLoop name chain = some (l ++ r)) ∨
    (name ∉ names chain ∧ deleteLoop name chain = none) := by
  induction chain with
  | nil => exact .inr ⟨List.not_mem_nil, rfl⟩
  | cons current next ih =>
      rw [deleteLoop]
      by_cases h : current.name = name
      · exact .inl ⟨[], current, next, rfl, h, List.not_mem_nil, if_pos h⟩
      · rw [if_neg h]
        rcases ih with ⟨l, node, r, rfl, hnode, hl, hloop⟩ | ⟨hnot, hloop⟩
        · refine .inl ⟨current :: l, node, r, rfl, hnode, ?_, by rw [hloop]; rfl⟩
          simp only [names, List.map_cons, List.mem_cons, not_or]
          exact ⟨Ne.symm h, hl⟩
        · refine .inr ⟨?_, by rw [hloop]; rfl⟩
          simp only [names, List.map_cons, List.mem_cons, not_or]
          exact ⟨Ne.symm h, hnot⟩

/-- `list_delete` unlinks the first node of that name, at the head or behind it, and
answers true; without such a node it changes nothing and answers false. -/
theorem listDelete_cases (head : List Node) (name : CString) :
    (∃ l node r, head = l ++ node :: r ∧ node.name = name ∧ name ∉ names l ∧
      listDelete head (some name) = (l ++ r, true)) ∨
    (name ∉ names head ∧ listDelete head (some name) = (head, false)) := by
  cases head with
  | nil => exact .inr ⟨List.not_mem_nil, rfl⟩
  | cons temp next =>
      -- the head test and the loop together are the loop from the head on
      have hloop : listDelete (temp :: next) (some name) =
          match deleteLoop name (temp :: next) with
          | some chain => (chain, true)
          | none => (temp :: next, false) := by
        rw [listDelete, deleteLoop]
        split
        · rfl
        · cases deleteLoop name next <;> rfl
      rw [hloop]
      rcases deleteLoop_cases name (temp :: next) with ⟨l, node, r, hsplit, hnode, hl, h⟩ | ⟨hnot, h⟩
      · exact .inl ⟨l, node, r, hsplit, hnode, hl, by rw [h]⟩
      · exact .inr ⟨hnot, by rw [h]⟩

theorem listDelete_none (head : List Node) : listDelete head none = (head, false) := by
  cases head <;> rfl

end Iface

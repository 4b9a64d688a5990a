/-
# The interface list of `iface_list.c` in memory

The functions of `IfaceList` once more, on blocks: the nodes, the seven strings of each, and
the working copy of the parser.  Every allocation may be refused, also in the middle of a
node; what was allocated until then is given back at the label `cleanup`.

A function that changes `*head_ref` answers the new head pointer.
-/
import RouterTools.IfaceSave
import RouterTools.LinkedBlocks

namespace IfaceMemory

open Blocks Iface CString IfaceParser

variable {P : Type} [DecidableEq P]

/-! ## The functions of the source -/

/-- A `FILE`: the bytes in front of its position and behind it, and its error indicator. -/
structure Stream where
  before : CString
  after : CString
  error : Bool

/-- What is allocated: `struct Node`, strings, and what `fopen` and `popen` allocate. -/
inductive Block (P : Type) where
  | node (fields : Fields (Option P)) (next : Option P)
  | text (s : CString)
  | stream (s : Stream)

/-- `struct Node` in its block. -/
def nodes : Layout P (Block P) (Fields (Option P)) where
  node fields next := .node fields next
  asNode
    | .node fields next => some (fields, next)
    | _ => none
  asNode_node _ _ := rfl

/-- The block of a string, read as such. -/
def Block.asText : Block P → Option CString
  | .text s => some s
  | _ => none

/-- The block of a `FILE`, read as such. -/
def Block.asStream : Block P → Option Stream
  | .stream s => some s
  | _ => none

/-- The allocator, what a fresh node happens to hold, and the budget of the loops over the
list. -/
structure Machine (P : Type) where
  allocator : Allocator P (Block P)
  junkFields : Fields (Option P)
  junkNext : Option P
  fuel : ℕ

/-- `_free_node_data`. -/
def freeNodeData (node : Option P) : Prog P (Block P) Unit := do
  if node.isNone then return ()
  let (fields, _) ← nodes.get node
  free fields.name
  free fields.mac
  free fields.ipv4
  free fields.bcast
  free fields.mask
  free fields.ipv6
  free fields.status
  nodes.modify node fun _ => ⟨none, none, none, none, none, none, none⟩

/-- `current->name != NULL && strcmp(current->name, name) == 0`. -/
def hasName (name : CString) (current : Fields (Option P)) : Prog P (Block P) Bool := do
  if current.name.isNone then return false
  let s ← read Block.asText current.name
  return decide (s = name)

variable (M : Machine P)

/-- The loop that `_list_contains_name`, `list_search` and `list_delete` have in common, with
`prev` behind the node it looks at. -/
def search (name : CString) (prev head : Option P) : Prog P (Block P) (Option P × Option P) :=
  walk nodes (fun current => do return !(← hasName name current)) M.fuel prev head

/-- `_list_contains_name`. -/
def listContainsName (head : Option P) (name : CString) : Prog P (Block P) Bool := do
  let (_, current) ← search M name none head
  return current.isSome

/-- The label `cleanup` of `_create_node_internal`. -/
def cleanup (newNode : Option P) : Prog P (Block P) (Option P) := do
  freeNodeData newNode
  free newNode
  return none

/-- `newNode->field = strdup(s); if (!newNode->field) goto cleanup;`, for the field that `put`
writes, and what comes after it. -/
def copyField (newNode : Option P) (put : Option P → Fields (Option P) → Fields (Option P))
    (s : CString) (rest : Prog P (Block P) (Option P)) : Prog P (Block P) (Option P) := do
  let copy ← malloc M.allocator (.text s)
  nodes.modify newNode (put copy)
  if copy.isNone then cleanup newNode else rest

/-- `_create_node_internal`. -/
def createNodeInternal (args : Fields (Option CString)) : Prog P (Block P) (Option P) := do
  let newNode ← malloc M.allocator (.node M.junkFields M.junkNext)
  if newNode.isNone then return none
  nodes.modify newNode fun _ => ⟨none, none, none, none, none, none, none⟩
  nodes.setNext newNode none
  copyField M newNode (fun p fields => { fields with name := p }) (args.name.getD []) <|
    copyField M newNode (fun p fields => { fields with mac := p }) (args.mac.getD []) <|
    copyField M newNode (fun p fields => { fields with ipv4 := p }) (args.ipv4.getD []) <|
    copyField M newNode (fun p fields => { fields with bcast := p }) (args.bcast.getD []) <|
    copyField M newNode (fun p fields => { fields with mask := p }) (args.mask.getD []) <|
    copyField M newNode (fun p fields => { fields with ipv6 := p }) (args.ipv6.getD []) <|
    copyField M newNode (fun p fields => { fields with status := p })
      (args.status.getD (str "UNKNOWN")) <|
    return newNode

/-- `_append`. -/
def append (head newNode : Option P) : Prog P (Block P) (Option P) := do
  if head.isNone then return newNode
  let last ← findLast nodes M.fuel head
  nodes.setNext last newNode
  return head

/-- `list_add`. -/
def listAdd (head : Option P) (args : Fields (Option CString)) : Prog P (Block P) (Option P) := do
  let newNode ← createNodeInternal M args
  if newNode.isSome then append M head newNode else return head

/-- `list_search`. -/
def listSearch (head : Option P) (searchName : Option CString) : Prog P (Block P) (Option P) :=
  match searchName with
  | none => do
      -- the test fails at every node
      let _ ← walk nodes (fun _ => pure true) M.fuel none head
      return none
  | some searchName => do
      let (_, current) ← search M searchName none head
      return current

/-- A node is unlinked, and freed with its strings. -/
def deleteNode (node : Option P) : Prog P (Block P) Unit := do
  freeNodeData node
  free node

/-- `list_delete`. -/
def listDelete (head : Option P) (deleteName : Option CString) :
    Prog P (Block P) (Option P × Bool) :=
  match head, deleteName with
  | some temp, some deleteName => do
      let (fields, next) ← nodes.get (some temp)
      if ← hasName deleteName fields then
        deleteNode (some temp)
        return (next, true)
      let (previous, current) ← search M deleteName (some temp) next
      if current.isNone then return (some temp, false)
      let (_, next) ← nodes.get current
      nodes.setNext previous next
      deleteNode current
      return (some temp, true)
  | head, _ => return (head, false)

/-- What a loop that writes out the list does at a node: the strings of its fields, NULL for a
NULL pointer. -/
def readText (p : Option P) : Prog P (Block P) (Option CString) := do
  if p.isNone then return none
  let s ← read Block.asText p
  return some s

/-- `test_search` of `main.c`: the MAC and the status that it prints. -/
def testSearch (head : Option P) (nameToFind : CString) :
    Prog P (Block P) (Option (CString × CString)) := do
  let foundNode ← listSearch M head (some nameToFind)
  if foundNode.isNone then return none
  let (fields, _) ← nodes.get foundNode
  let mac ← readText fields.mac
  let status ← readText fields.status
  return some (mac.getD (str "(N/A)"), status.getD (str "(N/A)"))

/-- The strings of a node. -/
def readFields (fields : Fields (Option P)) : Prog P (Block P) (Fields (Option CString)) := do
  let name ← readText fields.name
  let mac ← readText fields.mac
  let ipv4 ← readText fields.ipv4
  let bcast ← readText fields.bcast
  let mask ← readText fields.mask
  let ipv6 ← readText fields.ipv6
  let status ← readText fields.status
  return ⟨name, mac, ipv4, bcast, mask, ipv6, status⟩

/-- The loops of `list_print` and `save_list_to_file`: `render count node` is what they write
at the `count`-th node. -/
def writeNodes (render : ℕ → Fields (Option CString) → CString) :
    ℕ → ℕ → Option P → Prog P (Block P) CString
  | 0, _, _ => fail .outOfFuel
  | _ + 1, _, none => return []
  | fuel + 1, count, some current => do
      let (fields, next) ← nodes.get (some current)
      let strings ← readFields fields
      let rest ← writeNodes render fuel (count + 1) next
      return render count strings ++ rest

/-- One round of `list_print`. -/
def printedNode (count : ℕ) (current : Fields (Option CString)) : CString :=
  str "  [" ++ decimal count ++ str "] Name  : " ++ current.name.getD (str "(N/A)") ++
  str "\n      MAC   : " ++ current.mac.getD (str "(N/A)") ++
  str "\n      IPv4  : " ++ current.ipv4.getD (str "(N/A)") ++
  str "\n      Bcast : " ++ current.bcast.getD (str "(N/A)") ++
  str "\n      Mask  : " ++ current.mask.getD (str "(N/A)") ++
  str "\n      IPv6  : " ++ current.ipv6.getD (str "(N/A)") ++
  str "\n      Status: " ++ current.status.getD (str "(N/A)") ++
  str "\n      --------------------\n"

/-- `list_print`. -/
def listPrint (head : Option P) : Prog P (Block P) CString := do
  if head.isNone then return str "Interface list is empty.\n"
  let body ← writeNodes printedNode M.fuel 1 head
  return str "\n--- Interface List ---\n" ++ body ++ str "--- End of List ---\n\n"

/-- One round of `save_list_to_file`. -/
def savedNode (_count : ℕ) (current : Fields (Option CString)) : CString :=
  nodeText (current.map fun s => s.getD [])

/-- `save_list_to_file`, as `Iface.saveListToFile`. -/
def saveListToFile (head : Option P) (opened : Bool) (file : Option CString) :
    Prog P (Block P) (Option CString) := do
  if opened then
    let body ← writeNodes savedNode M.fuel 1 head
    return some body
  else return file

/-- What stands at both places where a finished interface goes to the list. -/
def flush (head : Option P) (bufs : Buffers) : Prog P (Block P) (Option P) := do
  if bufs.name ≠ [] then
    if ← listContainsName M head bufs.name then return head
    else listAdd M head (bufs.map some)
  else return head

/-- The body of the line loop. -/
def parseLine (s : Option P × Buffers) (line : CString) :
    Prog P (Block P) (Option P × Buffers) := do
  if isHeader line then
    let head ← flush M s.1 s.2
    let bufs := resetTempBuffers bufSizes s.2
    return (head, { bufs with
      name := parserName line bufSizes.name bufs.name
      mac := parserMac line bufSizes.mac bufs.mac })
  else if s.2.name ≠ [] then return (s.1, parseSubLine s.2 line)
  else return s

/-- The line loop.  After each line `strtok_r` goes on reading in the working copy. -/
def parseLines (bufferCopy : Option P) :
    Option P × Buffers → List CString → Prog P (Block P) (Option P × Buffers)
  | s, [] => return s
  | s, line :: lines => do
      let s ← parseLine M s line
      let _ ← read Block.asText bufferCopy
      parseLines bufferCopy s lines

/-- `parse_data_buffer`. -/
def parseDataBuffer (head : Option P) (dataBuffer : Option CString) :
    Prog P (Block P) (Option P) :=
  match dataBuffer with
  | none => return head
  | some dataBuffer => do
      -- strdup
      let bufferCopy ← malloc M.allocator (.text dataBuffer)
      if bufferCopy.isNone then return head
      let text ← read Block.asText bufferCopy
      let (head, bufs) ← parseLines M bufferCopy (head, emptyBuffers) (strtok text (str "\n"))
      let head ← flush M head bufs
      free bufferCopy
      return head

/-- What `list_destroy` does to a node before it frees it. -/
def releaseNode (current : P) : Prog P (Block P) Unit := freeNodeData (some current)

/-- `list_destroy`. -/
def listDestroy (head : Option P) : Prog P (Block P) Unit :=
  disposeAll nodes releaseNode M.fuel head

/-! ## Programs -/

/-- A call of the public interface. -/
inductive Call where
  | parse (dataBuffer : Option CString)
  | add (args : Fields (Option CString))
  | delete (deleteName : Option CString)
  | search (searchName : Option CString)
  | print
  | save (opened : Bool) (file : Option CString)

/-- What a call returns or writes; of a node that is found, its strings. -/
inductive Answer where
  | parsed
  | added
  | deleted (found : Bool)
  | found (node : Option (Fields (Option CString)))
  | printed (text : CString)
  | saved (file : Option CString)

/-- A call, with the head pointer before and after it. -/
def callOf (head : Option P) : Call → Prog P (Block P) (Option P × Answer)
  | .parse dataBuffer => do
      let head ← parseDataBuffer M head dataBuffer
      return (head, .parsed)
  | .add args => do
      let head ← listAdd M head args
      return (head, .added)
  | .delete deleteName => do
      let (head, found) ← listDelete M head deleteName
      return (head, .deleted found)
  | .search searchName => do
      let node ← listSearch M head searchName
      if node.isNone then return (head, .found none)
      let (fields, _) ← nodes.get node
      let strings ← readFields fields
      return (head, .found (some strings))
  | .print => do
      let text ← listPrint M head
      return (head, .printed text)
  | .save opened file => do
      let file ← saveListToFile M head opened file
      return (head, .saved file)

/-- A program that builds up a list, uses it and destroys it. -/
def program (calls : List Call) : Prog P (Block P) (List Answer) := do
  let (head, answers) ← serveWith (callOf M) none calls
  listDestroy M head
  return answers

end IfaceMemory

/-
# Programs that use the interface list

The parser takes its blocks to the list one by one, each with eight allocations, and works on
a copy of the text, which is a ninth.  `callOf_ends` says that each call does to the list what
the functions of `IfaceList` do, with the answers of the allocator; from it
`iface_program_keeps_memory` follows, about whole programs that build up a list, use it and
destroy it: they return with the memory as it was, and their answers are those of a run of
`listStep` that takes what the allocator answered.
-/
import RouterTools.IfaceMemorySpec

namespace IfaceMemory

open Blocks Iface CString IfaceParser

variable {P : Type} {M : Machine P} {frame : P → Option (Block P)} {m : Memory P (Block P)}
  {ns : List (Placed P)} {x : Placed P}

/-! ## Writing out the list -/

theorem readText_ok {p : P} {s : CString} (hp : m.cells p = some (.text s)) :
    readText (some p) m = (.ok (some s), m) := by
  have hread : read Block.asText (some p) m = (.ok s, m) := read_ok hp rfl
  rw [readText, if_neg (by simp), bind_ok hread]
  rfl

theorem readStream_ok {p : P} {s : Stream} (hp : m.cells p = some (.stream s)) :
    read Block.asStream (some p) m = (.ok s, m) :=
  read_ok hp rfl

/-- The strings of a node are read. -/
theorem readFields_ok (hx : ∀ y ∈ x.strings, m.cells y.1 = some (.text y.2)) :
    readFields x.block.2 m = (.ok (x.node.map some), m) := by
  have hread : ∀ y ∈ x.strings, readText (some y.1) m = (.ok (some y.2), m) := fun y hy =>
    readText_ok (hx y hy)
  have hname := hread (x.texts.name, x.node.name) (by simp [Placed.strings])
  have hmac := hread (x.texts.mac, x.node.mac) (by simp [Placed.strings])
  have hipv4 := hread (x.texts.ipv4, x.node.ipv4) (by simp [Placed.strings])
  have hbcast := hread (x.texts.bcast, x.node.bcast) (by simp [Placed.strings])
  have hmask := hread (x.texts.mask, x.node.mask) (by simp [Placed.strings])
  have hipv6 := hread (x.texts.ipv6, x.node.ipv6) (by simp [Placed.strings])
  have hstatus := hread (x.texts.status, x.node.status) (by simp [Placed.strings])
  dsimp only [readFields, Placed.block, Fields.map]
  rw [bind_ok hname, bind_ok hmac, bind_ok hipv4, bind_ok hbcast, bind_ok hmask, bind_ok hipv6,
    bind_ok hstatus]
  rfl

/-- What a loop over the list writes, from the `count`-th node on. -/
def written (render : ℕ → Fields (Option CString) → CString) : ℕ → List Node → CString
  | _, [] => []
  | count, current :: next => render count (current.map some) ++ written render (count + 1) next

theorem writeNodes_ok (render : ℕ → Fields (Option CString) → CString) (h : Holds m.cells ns)
    {fuel : ℕ} (hfuel : ns.length < fuel) (count : ℕ) :
    writeNodes render fuel count (headOf ns) m = (.ok (written render count (listOf ns)), m) := by
  obtain ⟨n, rfl⟩ : ∃ n, fuel = n + 1 := ⟨fuel - 1, by omega⟩
  induction ns generalizing n count with
  | nil => rfl
  | cons x ns ih =>
      obtain ⟨hx, hlinked⟩ := h.linked
      obtain ⟨k, rfl⟩ : ∃ k, n = k + 1 := ⟨n - 1, by rw [List.length_cons] at hfuel; omega⟩
      rw [List.length_cons] at hfuel
      have hrest : Holds m.cells ns :=
        ⟨hlinked, fun y hy => h.texts y (List.mem_cons_of_mem x hy)⟩
      have hih : writeNodes render (k + 1) (count + 1) (first (ns.map Placed.block) none) m =
          (.ok (written render (count + 1) (listOf ns)), m) := ih hrest (count + 1) k (by omega)
      show writeNodes render (k + 1 + 1) count (some x.block.1) m = _
      rw [writeNodes, bind_ok (nodes.get_ok hx)]
      dsimp only
      rw [bind_ok (readFields_ok (h.texts x List.mem_cons_self)), bind_ok hih]
      rfl

/-- What `save_list_to_file` writes is what `saveNodes` says. -/
theorem written_savedNode (count : ℕ) (l : List Node) :
    written savedNode count l = saveNodes l := by
  induction l generalizing count with
  | nil => rfl
  | cons current next ih => rw [written, saveNodes, ih]; rfl

/-- What `list_print` writes. -/
def printed (l : List Node) : CString :=
  if l.isEmpty then str "Interface list is empty.\n"
  else str "\n--- Interface List ---\n" ++ written printedNode 1 l ++ str "--- End of List ---\n\n"

/-- **`list_print`.** -/
theorem listPrint_ok (h : Holds m.cells ns) (hfuel : ns.length < M.fuel) :
    listPrint M (headOf ns) m = (.ok (printed (listOf ns)), m) := by
  cases ns with
  | nil => rfl
  | cons x ns =>
      rw [listPrint, if_neg (by simp [headOf, first]),
        bind_ok (writeNodes_ok printedNode h hfuel 1)]
      rfl

/-- **`save_list_to_file`.** -/
theorem saveListToFile_ok (h : Holds m.cells ns) (hfuel : ns.length < M.fuel) (opened : Bool)
    (file : Option CString) :
    saveListToFile M (headOf ns) opened file m =
      (.ok (Iface.saveListToFile (listOf ns) opened file), m) := by
  cases opened with
  | false => rfl
  | true =>
      rw [saveListToFile, if_pos rfl, bind_ok (writeNodes_ok savedNode h hfuel 1),
        written_savedNode]
      rfl

theorem listSearch_cut {name : CString} {l r : List Node} {node : Node} (hnode : node.name = name)
    (hl : name ∉ names l) : Iface.listSearch (l ++ node :: r) (some name) = some node := by
  induction l with
  | nil => exact if_pos (congrArg some hnode)
  | cons current l ih =>
      rw [names, List.map_cons, List.mem_cons, not_or] at hl
      rw [List.cons_append, Iface.listSearch, ih hl.2, if_neg]
      exact fun heq => hl.1 (Option.some.inj heq).symm

theorem listSearch_absent {searchName : Option CString} {l : List Node}
    (hl : ∀ name ∈ searchName, name ∉ names l) : Iface.listSearch l searchName = none := by
  induction l with
  | nil => rfl
  | cons current l ih =>
      have hrest : ∀ name ∈ searchName, name ∉ names l := fun name hname hmem =>
        hl name hname (List.mem_cons_of_mem _ hmem)
      rw [Iface.listSearch, ih hrest, if_neg]
      exact fun heq => hl current.name heq.symm List.mem_cons_self

/-- **`list_search`.** -/
theorem listSearch_ok (h : Holds m.cells ns) (hfuel : ns.length < M.fuel)
    (searchName : Option CString) :
    (listSearch M (headOf ns) searchName m = (.ok none, m) ∧
      Iface.listSearch (listOf ns) searchName = none) ∨
    ∃ before x after, ns = before ++ x :: after ∧
      listSearch M (headOf ns) searchName m = (.ok (some x.address), m) ∧
      Iface.listSearch (listOf ns) searchName = some x.node := by
  rcases searchName with - | name
  · have hlinked : Segment nodes m.cells (ns.map Placed.block ++ []) none := by
      rw [List.append_nil]
      exact h.linked
    have hwalk : walk nodes (fun _ => pure true) M.fuel none
        (first (ns.map Placed.block ++ []) none) m =
          (.ok (lastOr none (ns.map Placed.block), none), m) :=
      walk_ok _ [] hlinked (fun y _ => rfl) (fun y hy => by cases hy)
        (by rwa [List.length_map]) none
    rw [List.append_nil] at hwalk
    refine .inl ⟨?_, listSearch_absent fun name hname => by cases hname⟩
    rw [listSearch, headOf, bind_ok hwalk]
    rfl
  · by_cases hname : name ∈ names (listOf ns)
    · obtain ⟨before, x, after, rfl, hx, hbefore⟩ := exists_cut hname
      rw [List.length_append] at hfuel
      have hsearch := search_ok (M := M) h hbefore (fun y hy => by cases hy; exact hx) (by omega)
        none
      refine .inr ⟨before, x, after, rfl, ?_, ?_⟩
      · rw [listSearch, bind_ok hsearch]
        rfl
      · rw [listOf, List.map_append, List.map_cons]
        exact listSearch_cut hx hbefore
    · refine .inl ⟨?_, listSearch_absent fun name' hname' => by cases hname'; exact hname⟩
      rw [listSearch, bind_ok (search_absent (M := M) h hname hfuel none)]
      rfl

/-- What `test_search` prints of a node. -/
def shownNode (node : Node) : CString × CString := (node.mac, node.status)

/-- **`test_search`.** -/
theorem testSearch_ok (h : Holds m.cells ns)
    (hfuel : ns.length < M.fuel) (nameToFind : CString) :
    testSearch M (headOf ns) nameToFind m =
      (.ok ((Iface.listSearch (listOf ns) (some nameToFind)).map shownNode), m) := by
  rcases listSearch_ok h hfuel (some nameToFind) with
    ⟨hrun, hsearch⟩ | ⟨before, x, after, rfl, hrun, hsearch⟩
  · rw [testSearch, bind_ok hrun, hsearch]
    rfl
  · have hlinked := h.linked
    rw [List.map_append, List.map_cons] at hlinked
    have htexts : ∀ y ∈ x.strings, m.cells y.1 = some (.text y.2) := h.texts x (by simp)
    have hmac : readText (some x.texts.mac) m = (.ok (some x.node.mac), m) :=
      readText_ok (htexts (x.texts.mac, x.node.mac) (by simp [Placed.strings]))
    have hstatus : readText (some x.texts.status) m = (.ok (some x.node.status), m) :=
      readText_ok (htexts (x.texts.status, x.node.status) (by simp [Placed.strings]))
    rw [testSearch, bind_ok hrun, hsearch]
    refine (bind_ok (nodes.get_ok hlinked.getNode)).trans ?_
    exact (bind_ok hmac).trans ((bind_ok hstatus).trans rfl)

/-! ## Parsing -/

/-- A block that is none of the list's stays as it was. -/
theorem Represents.other (h : Represents frame m.cells ns) {p : P} {v : Block P}
    (hp : frame p = some v) : m.cells p = some v := by
  rw [h.owns.others p, hp]
  intro hmem
  rw [h.owns.new p hmem] at hp
  cases hp

variable [DecidableEq P]

/-- A block besides the list is freed. -/
theorem Represents.release (h : Represents frame m.cells ns) {p : P} {v : Block P}
    (hp : frame p = some v) :
    Represents (Function.update frame p none) (m.erase p).cells ns := by
  have hnot : p ∉ blocks owned (ns.map Placed.block) := by
    intro hmem
    rw [h.owns.new p hmem] at hp
    cases hp
  refine ⟨h.toHolds.congr fun a ha => Function.update_of_ne ?_ _ _, h.owns.outside hnot none⟩
  rintro rfl
  exact hnot ha

/-- What a function that grows the list ends in: the list is what `r` says with the answers of
the allocator, and has at most `k` nodes more. -/
def Grown (frame : P → Option (Block P)) (ns : List (Placed P)) (k : ℕ) (m : Memory P (Block P))
    (r : Alloc → List Node × Alloc) (head : Option P) (m' : Memory P (Block P)) : Prop :=
  ∃ used ns', head = headOf ns' ∧ Represents frame m'.cells ns' ∧ ns'.length ≤ ns.length + k ∧
    Answered used m m' ∧ ∀ heap, r (used ++ heap) = (listOf ns', heap)

/-- A finished interface goes to the list. -/
theorem flush_ends (h : Represents frame m.cells ns) (hfuel : ns.length < M.fuel)
    (bufs : Buffers) :
    Ends (flush M (headOf ns) bufs) m (Grown frame ns 1 m (Iface.flush (listOf ns) bufs))
      (fun _ _ => False) := by
  have hunchanged : (∀ heap, Iface.flush (listOf ns) bufs heap = (listOf ns, heap)) →
      Grown frame ns 1 m (Iface.flush (listOf ns) bufs) (headOf ns) m := fun hflush =>
    ⟨[], ns, rfl, h, Nat.le_succ _, .of_eq rfl, hflush⟩
  unfold flush
  by_cases hname : bufs.name ≠ []
  · rw [if_pos hname]
    refine ends_bind_ok (listContainsName_ok h.toHolds hfuel bufs.name) ?_
    by_cases hnew : Iface.listContainsName (listOf ns) bufs.name = false
    · rw [if_neg (by simp [hnew])]
      refine (listAdd_ends h hfuel (bufs.map some)).mono ?_ (fun _ _ hE => hE)
      rintro head m' ⟨used, ns', hhead, hrep, hlen, hused, hadd⟩
      refine ⟨used, ns', hhead, hrep, hlen, hused, fun heap => ?_⟩
      rw [Iface.flush, if_pos hname, if_pos hnew, hadd]
    · rw [if_pos (by simpa using hnew)]
      refine ends_of_ok rfl (hunchanged fun heap => ?_)
      rw [Iface.flush, if_pos hname, if_neg hnew]
  · rw [if_neg hname]
    refine ends_of_ok rfl (hunchanged fun heap => ?_)
    rw [Iface.flush, if_neg hname]

/-- **One line.** -/
theorem parseLine_ends (h : Represents frame m.cells ns) (hfuel : ns.length < M.fuel)
    (bufs : Buffers) (line : CString) :
    Ends (parseLine M (headOf ns, bufs) line) m
      (fun s m' => ∃ used ns', s.1 = headOf ns' ∧ Represents frame m'.cells ns' ∧
        ns'.length ≤ ns.length + 1 ∧ Answered used m m' ∧
        ∀ heap, Iface.parseLine ⟨listOf ns, bufs, used ++ heap⟩ line = ⟨listOf ns', s.2, heap⟩)
      (fun _ _ => False) := by
  unfold parseLine
  by_cases hheader : isHeader line = true
  · rw [if_pos hheader]
    refine Ends.bind (flush_ends h hfuel bufs) ?_
    rintro head m' ⟨used, ns', rfl, hrep, hlen, hused, hflush⟩
    refine ends_of_ok rfl ⟨used, ns', rfl, hrep, hlen, hused, fun heap => ?_⟩
    rw [Iface.parseLine, if_pos hheader]
    simp only [hflush]
  · have hsame : Answered [] m m := .of_eq rfl
    rw [if_neg hheader]
    by_cases hname : bufs.name ≠ []
    · rw [if_pos hname]
      refine ends_of_ok rfl ⟨[], ns, rfl, h, Nat.le_succ _, hsame, fun heap => ?_⟩
      rw [Iface.parseLine, if_neg hheader, if_pos hname]
      rfl
    · rw [if_neg hname]
      refine ends_of_ok rfl ⟨[], ns, rfl, h, Nat.le_succ _, hsame, fun heap => ?_⟩
      rw [Iface.parseLine, if_neg hheader, if_neg hname]
      rfl

/-- **The line loop.** -/
theorem parseLines_ends {copy : P} {text : CString} (hcopy : frame copy = some (.text text))
    (lines : List CString) (h : Represents frame m.cells ns)
    (hfuel : ns.length + lines.length < M.fuel) (bufs : Buffers) :
    Ends (parseLines M (some copy) (headOf ns, bufs) lines) m
      (fun s m' => ∃ used ns', s.1 = headOf ns' ∧ Represents frame m'.cells ns' ∧
        ns'.length ≤ ns.length + lines.length ∧ Answered used m m' ∧
        ∀ heap, lines.foldl Iface.parseLine ⟨listOf ns, bufs, used ++ heap⟩ =
          ⟨listOf ns', s.2, heap⟩)
      (fun _ _ => False) := by
  induction lines generalizing m ns bufs with
  | nil =>
      exact ends_of_ok rfl ⟨[], ns, rfl, h, Nat.le_refl _,
        .of_eq rfl, fun heap => rfl⟩
  | cons line lines ih =>
      rw [List.length_cons] at hfuel ⊢
      refine Ends.bind (parseLine_ends h (by omega) bufs line) ?_
      rintro ⟨head, bufs₁⟩ m₁ ⟨used₁, ns₁, rfl, hrep₁, hlen₁, hused₁, hline⟩
      have hread : read Block.asText (some copy) m₁ = (.ok text, m₁) :=
        read_ok (hrep₁.other hcopy) rfl
      refine ends_bind_ok hread ?_
      refine (ih hrep₁ (by omega) bufs₁).mono ?_ (fun _ _ hE => hE)
      rintro s m' ⟨used, ns', hhead, hrep, hlen, hused, hloop⟩
      refine ⟨used₁ ++ used, ns', hhead, hrep, by omega, hused₁.trans hused, fun heap => ?_⟩
      rw [List.foldl_cons, List.append_assoc, hline, hloop]

/-- The number of lines of a text. -/
def lineCount (dataBuffer : Option CString) : ℕ :=
  (dataBuffer.map fun data => (strtok data (str "\n")).length).getD 0

/-- **`parse_data_buffer`** works on its own copy of the text, and frees it. -/
theorem parseDataBuffer_ends (h : Represents frame m.cells ns) (dataBuffer : Option CString)
    (hfuel : ns.length + lineCount dataBuffer + 1 < M.fuel) :
    Ends (parseDataBuffer M (headOf ns) dataBuffer) m
      (Grown frame ns (lineCount dataBuffer + 1) m
        (Iface.parseDataBuffer (listOf ns) dataBuffer))
      (fun _ _ => False) := by
  rcases dataBuffer with - | data
  · refine ends_of_ok rfl ⟨[], ns, rfl, h, by omega, ?_, fun heap => rfl⟩
    exact .of_eq rfl
  · have hcount : lineCount (some data) = (strtok data (str "\n")).length := rfl
    refine ends_bind_malloc _ _ (fun m₁ hcells₁ hused₁ => ?_) fun copy m₁ hfree hcells₁ hused₁ => ?_
    · rw [← hcells₁] at h
      exact ends_of_ok rfl ⟨[false], ns, rfl, h, by omega, hused₁, fun heap => rfl⟩
    · -- the copy is one more block besides the list
      have hout := h.owns.not_mem hfree
      let frame' := Function.update frame copy (some (Block.text data))
      have hself : frame' copy = some (.text data) := Function.update_self _ _ _
      have hrep₁ : Represents frame' m₁.cells ns := by
        refine ⟨h.toHolds.congr fun a ha => ?_, ?_⟩
        · rw [hcells₁, Function.update_of_ne]
          rintro rfl
          exact hout ha
        · rw [hcells₁]
          exact h.owns.outside hout _
      have hread : read Block.asText (some copy) m₁ = (.ok data, m₁) :=
        read_ok (hrep₁.other hself) rfl
      refine ends_bind_ok hread ?_
      refine Ends.bind (parseLines_ends hself _ hrep₁ (by omega) emptyBuffers) ?_
      rintro ⟨head, bufs⟩ m₂ ⟨used₂, ns₂, rfl, hrep₂, hlen₂, hused₂, hloop⟩
      refine Ends.bind (flush_ends hrep₂ (by omega) bufs) ?_
      rintro head m₃ ⟨used₃, ns₃, rfl, hrep₃, hlen₃, hused₃, hflush⟩
      refine ends_bind_ok (free_ok (hrep₃.other hself)) (ends_of_ok rfl ?_)
      have hused : Answered (true :: (used₂ ++ used₃)) m (m₃.erase copy) :=
        hused₁.trans (hused₂.trans hused₃)
      have hframe : Function.update frame' copy none = frame := by
        rw [Function.update_idem, Function.update_eq_self_iff, ← h.owns.others copy hout, hfree]
      have hrep : Represents frame (m₃.erase copy).cells ns₃ := by
        rw [← hframe]
        exact hrep₃.release hself
      refine ⟨true :: (used₂ ++ used₃), ns₃, rfl, hrep, by omega, hused, fun heap => ?_⟩
      have hrun : (strtok data (str "\n")).foldl Iface.parseLine
          ⟨listOf ns, emptyBuffers, (used₂ ++ used₃) ++ heap⟩ =
            ⟨listOf ns₂, bufs, used₃ ++ heap⟩ := by
        rw [List.append_assoc]
        exact hloop _
      rw [List.cons_append, Iface.parseDataBuffer]
      simp only [alloc, hrun, hflush]

/-! ## Calls -/

/-- A call does to the list what the functions of `IfaceList` do, when the allocator goes on with
the answers beside the list. -/
def listStep (s : List Node × Alloc) : Call → Option ((List Node × Alloc) × Answer)
  | .parse dataBuffer => some (Iface.parseDataBuffer s.1 dataBuffer s.2, .parsed)
  | .add args => some (Iface.listAdd s.1 args s.2, .added)
  | .delete deleteName =>
      let (head, found) := Iface.listDelete s.1 deleteName
      some ((head, s.2), .deleted found)
  | .search searchName =>
      some (s, .found ((Iface.listSearch s.1 searchName).map fun node => node.map some))
  | .print => some (s, .printed (printed s.1))
  | .save opened file => some (s, .saved (Iface.saveListToFile s.1 opened file))

/-- How many nodes a call may add. -/
def weight : Call → ℕ
  | .parse dataBuffer => lineCount dataBuffer + 1
  | .add _ => 1
  | _ => 0

/-- **One call.** -/
theorem callOf_ends (h : Represents frame m.cells ns) (call : Call)
    (hfuel : ns.length + weight call < M.fuel) :
    Ends (callOf M (headOf ns) call) m
      (fun r m' => ∃ used ns', Answered used m m' ∧
        (∀ heap, listStep (listOf ns, used ++ heap) call = some ((listOf ns', heap), r.2)) ∧
        r.1 = headOf ns' ∧ Represents frame m'.cells ns' ∧ ns'.length ≤ ns.length + weight call)
      (fun _ _ => False) := by
  have hsame : Answered [] m m := .of_eq rfl
  cases call with
  | parse dataBuffer =>
      refine Ends.bind (parseDataBuffer_ends h dataBuffer hfuel) ?_
      rintro head m' ⟨used, ns', rfl, hrep, hlen, hused, hparse⟩
      refine ends_of_ok rfl ⟨used, ns', hused, fun heap => ?_, rfl, hrep, hlen⟩
      simp only [listStep, hparse]
  | add args =>
      have hlt : ns.length + 1 < M.fuel := hfuel
      refine Ends.bind (listAdd_ends h (by omega) args) ?_
      rintro head m' ⟨used, ns', rfl, hrep, hlen, hused, hadd⟩
      refine ends_of_ok rfl ⟨used, ns', hused, fun heap => ?_, rfl, hrep, hlen⟩
      simp only [listStep, hadd]
  | delete deleteName =>
      refine Ends.bind (listDelete_ends h hfuel deleteName) ?_
      rintro ⟨head, found⟩ m' ⟨ns', rfl, hrep, hlen, href, hdelete⟩
      refine ends_of_ok rfl ⟨[], ns', .of_eq href, fun heap => ?_, rfl, hrep, hlen⟩
      simp only [listStep, hdelete, List.nil_append]
  | search searchName =>
      rcases listSearch_ok h.toHolds hfuel searchName with
        ⟨hrun, hsearch⟩ | ⟨before, x, after, rfl, hrun, hsearch⟩
      · refine ends_bind_ok hrun
          (ends_of_ok rfl ⟨[], ns, hsame, fun heap => ?_, rfl, h, Nat.le_refl _⟩)
        simp only [listStep, hsearch]
        rfl
      · have hlinked := h.linked
        rw [List.map_append, List.map_cons] at hlinked
        have hfields := readFields_ok (m := m) (h.texts x (by simp))
        refine ends_bind_ok hrun (ends_bind_ok (nodes.get_ok hlinked.getNode) ?_)
        refine ends_bind_ok hfields
          (ends_of_ok rfl ⟨[], _, hsame, fun heap => ?_, rfl, h, Nat.le_refl _⟩)
        simp only [listStep, hsearch]
        rfl
  | print =>
      refine ends_bind_ok (listPrint_ok h.toHolds hfuel) ?_
      exact ends_of_ok rfl ⟨[], ns, hsame, fun _ => rfl, rfl, h, Nat.le_refl _⟩
  | save opened file =>
      refine ends_bind_ok (saveListToFile_ok h.toHolds hfuel opened file) ?_
      exact ends_of_ok rfl ⟨[], ns, hsame, fun _ => rfl, rfl, h, Nat.le_refl _⟩

theorem releases_node :
    Releases nodes owned (releaseNode (P := P)) := by
  intro frame m x q rest howns hx
  obtain ⟨m', v, hrun, howns', hsame, -, href⟩ := freeNodeData_ok howns hx
  exact ⟨m', hrun, howns', hsame, href⟩

/-- **`list_destroy`** frees every block of the list, once, and nothing else. -/
theorem listDestroy_ok (h : Represents frame m.cells ns) (hfuel : ns.length < M.fuel) :
    ∃ m', listDestroy M (headOf ns) m = (.ok (), m') ∧ m'.cells = frame ∧
      m'.answers = m.answers := by
  have howns : Owns frame m.cells (blocks owned (ns.map Placed.block) ++ []) := by
    rw [List.append_nil]
    exact h.owns
  obtain ⟨m', hrun, howns', -, href⟩ :=
    disposeAll_ok releases_node howns h.linked (by rwa [List.length_map])
  exact ⟨m', hrun, howns'.eq_of_nil, href⟩

/-- **A program with an interface list uses memory soundly.**  Whatever the allocator answers
and fresh blocks hold, a program that builds up a list, by parsing and by hand, uses it and
destroys it returns, with the memory as it was before: it follows no NULL pointer, uses no
block after it was freed and frees none twice, also where a node is given up after some of its
strings were copied.  Its answers are those of a run of the functions of `IfaceList`, which
takes what the allocator answered, call by call, and uses it up. -/
theorem iface_program_keeps_memory (M : Machine P) (calls : List Call)
    (hfuel : (calls.map weight).sum < M.fuel) (m : Memory P (Block P)) :
    Ends (program M calls) m
      (fun answers m' => m'.cells = m.cells ∧ ∃ used head, Answered used m m' ∧
        Runs.run listStep ([], used) calls = some ((head, []), answers))
      (fun _ _ => False) := by
  let Rep : ℕ → Option P → List Node → Memory P (Block P) → Prop := fun n t head m' =>
    ∃ ns, t = headOf ns ∧ head = listOf ns ∧ Represents m.cells m'.cells ns ∧
      ns.length + n < M.fuel
  have hinit : Rep (calls.map weight).sum none [] m := by
    refine ⟨[], rfl, rfl, ⟨⟨trivial, fun x hx => by cases hx⟩, owns_nil _⟩, ?_⟩
    rwa [List.length_nil, Nat.zero_add]
  have hserve := serveWith_ends (callOf M) listStep weight Rep (E := fun _ => False)
    (S := fun _ => False) ?_ calls hinit
  · refine Ends.bind (hserve.mono (fun _ _ hQ => hQ) ?_) ?_
    · rintro fault m' ⟨used, hused, ⟨hfalse, -⟩ | ⟨hfalse, -⟩⟩ <;> exact hfalse
    · rintro ⟨head, answers⟩ m₁ ⟨used, l, hused, hrun, ns, rfl, -, hrep, hlen⟩
      obtain ⟨m₂, hdestroy, hcells, href⟩ := listDestroy_ok (M := M) hrep (by omega)
      have hexact := hrun []
      rw [List.append_nil] at hexact
      exact ends_bind_ok hdestroy (ends_of_ok rfl ⟨hcells, used, l, hused.congr rfl href, hexact⟩)
  · rintro n t head m₁ call ⟨ns, rfl, rfl, hrep, hlen⟩
    refine (callOf_ends hrep call (by omega)).mono ?_ (fun _ _ hE => hE.elim)
    rintro ⟨head', answer⟩ m₂ ⟨used, ns', hused, hstep, hhead, hrep', hlen'⟩
    exact ⟨used, listOf ns', hused, hstep, ns', hhead, rfl, hrep', by omega⟩

/-- Two interfaces are parsed, a node is given up at its third string and added after all, the
first one is found and deleted, and the list is destroyed with two nodes in it. -/
theorem iface_program_keeps_memory_refused_string :
    ∃ answers m', program (P := ℕ)
        ⟨Allocator.refusing 20, ⟨some 3, none, none, none, none, none, none⟩, some 7, 9⟩
        [.parse (some (str "lo  Link encap:L\neth0 Link encap:E\n")),
          .add ⟨some (str "br0"), none, none, none, none, none, none⟩,
          .add ⟨some (str "br0"), none, none, none, none, none, none⟩, .search (some (str "lo")),
          .delete (some (str "lo"))] ⟨fun _ => none, []⟩ = (.ok answers, m') ∧
      m'.cells = fun _ => none := by
  obtain ⟨answers, m', hrun, hcells, -⟩ := Ends.exists_ok (iface_program_keeps_memory (P := ℕ)
    ⟨Allocator.refusing 20, ⟨some 3, none, none, none, none, none, none⟩, some 7, 9⟩
    [.parse (some (str "lo  Link encap:L\neth0 Link encap:E\n")),
      .add ⟨some (str "br0"), none, none, none, none, none, none⟩,
      .add ⟨some (str "br0"), none, none, none, none, none, none⟩, .search (some (str "lo")),
      .delete (some (str "lo"))] (by decide) ⟨fun _ => none, []⟩)
  exact ⟨answers, m', hrun, hcells⟩

end IfaceMemory

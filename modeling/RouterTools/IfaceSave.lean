/-
# The saved interface list

`save_list_to_file` writes each node as seven labelled lines and a line of dashes, and
nothing in the format escapes a label or the dashes inside a field.  What makes the file
readable all the same is that no field of a parsed list has a newline in it: the line
splitter takes them out, and the extractors copy pieces of a line.  A node whose fields
are lines is a value of the frame `nodeFrame`, which reads its own text back.
-/
import RouterTools.Framing
import RouterTools.Ipv4Tokens
import RouterTools.IfaceList

namespace Iface

open CString IfaceParser

/-! ## `save_list_to_file` -/

/-- What the `fprintf` calls of one round write. -/
def nodeText (current : Node) : CString :=
  str "Name: " ++ current.name ++ str "\n" ++
  str "MAC: " ++ current.mac ++ str "\n" ++
  str "IPv4: " ++ current.ipv4 ++ str "\n" ++
  str "Bcast: " ++ current.bcast ++ str "\n" ++
  str "Mask: " ++ current.mask ++ str "\n" ++
  str "IPv6: " ++ current.ipv6 ++ str "\n" ++
  str "Status: " ++ current.status ++ str "\n" ++
  str "--------------------------\n"

/-- The loop over the nodes. -/
def saveNodes : List Node → CString
  | [] => []
  | current :: next => nodeText current ++ saveNodes next

/-- `save_list_to_file`: what is in the file afterwards, none if there is no such file.
`opened` says whether `fopen` opens it for writing, `file` is what was in it before. -/
def saveListToFile (head : List Node) (opened : Bool) (file : Option CString) : Option CString :=
  if opened then some (saveNodes head) else file

/-! ## The format of a node -/

/-- A line of text. -/
abbrev Line := Frame.Line newline

/-- The fields in the order of the lines. -/
def fieldsEquiv (β : Type*) : Fields β ≃ (β × β × β × β × β × β × β) where
  toFun x := (x.name, x.mac, x.ipv4, x.bcast, x.mask, x.ipv6, x.status)
  invFun t := ⟨t.1, t.2.1, t.2.2.1, t.2.2.2.1, t.2.2.2.2.1, t.2.2.2.2.2.1, t.2.2.2.2.2.2⟩
  left_inv _ := rfl
  right_inv _ := rfl

/-- A labelled line. -/
def fieldFrame (label : String) : Frame UInt8 Line := (Frame.line newline).labelled (str label)

/-- Seven labelled lines and the dashes, for a node whose fields are lines. -/
def nodeFrame : Frame UInt8 (Fields Line) :=
  (((fieldFrame "Name: ").pair <| (fieldFrame "MAC: ").pair <| (fieldFrame "IPv4: ").pair <|
    (fieldFrame "Bcast: ").pair <| (fieldFrame "Mask: ").pair <| (fieldFrame "IPv6: ").pair <|
    fieldFrame "Status: ").ofEquiv (fieldsEquiv Line)).closed (str "--------------------------\n")

/-- The node with the given lines. -/
def nodeOf (x : Fields Line) : Node := x.map Subtype.val

/-- Reading a saved list. -/
def decodeSaved (file : CString) : Option (List Node) :=
  (nodeFrame.decodeAll file).map fun xs => xs.map nodeOf

/-- A node whose fields are lines is written in the format. -/
theorem encode_nodeFrame (x : Fields Line) : nodeFrame.encode x = nodeText (nodeOf x) := by
  have hnewline : [newline] = str "\n" := rfl
  have hfields : fieldsEquiv Line x =
      (x.name, x.mac, x.ipv4, x.bcast, x.mask, x.ipv6, x.status) := rfl
  unfold nodeFrame fieldFrame nodeText nodeOf Fields.map
  rw [Frame.encode_closed, Frame.encode_ofEquiv, hfields]
  simp only [Frame.encode_pair, Frame.encode_labelled, Frame.encode_line]
  rw [hnewline]
  simp only [List.append_assoc]

/-- A list of such nodes is written node by node. -/
theorem saveNodes_nodeOf (xs : List (Fields Line)) :
    saveNodes (xs.map nodeOf) = xs.flatMap nodeFrame.encode := by
  induction xs with
  | nil => rfl
  | cons x xs ih => rw [List.map_cons, saveNodes, ih, List.flatMap_cons, encode_nodeFrame]

theorem encode_nodeFrame_ne_nil (x : Fields Line) : nodeFrame.encode x ≠ [] := by
  intro h
  exact absurd (List.append_eq_nil_iff.mp h).2 (by decide)

/-! ## No parsed field has a newline in it -/

/-- Every field of the node is a line. -/
def IsLines (node : Node) : Prop := ∃ x : Fields Line, nodeOf x = node

theorem isLines_iff {node : Node} :
    IsLines node ↔ newline ∉ node.name ∧ newline ∉ node.mac ∧ newline ∉ node.ipv4 ∧
      newline ∉ node.bcast ∧ newline ∉ node.mask ∧ newline ∉ node.ipv6 ∧ newline ∉ node.status := by
  constructor
  · rintro ⟨x, rfl⟩
    exact ⟨x.name.2, x.mac.2, x.ipv4.2, x.bcast.2, x.mask.2, x.ipv6.2, x.status.2⟩
  · rintro ⟨h₁, h₂, h₃, h₄, h₅, h₆, h₇⟩
    exact ⟨⟨⟨_, h₁⟩, ⟨_, h₂⟩, ⟨_, h₃⟩, ⟨_, h₄⟩, ⟨_, h₅⟩, ⟨_, h₆⟩, ⟨_, h₇⟩⟩, rfl⟩

/-- What is copied into a buffer is part of the text. -/
theorem copyTo_subset (size : ℕ) (s : CString) : copyTo size s ⊆ s := List.take_subset _ _

/-- A token is part of the text. -/
theorem token_subset {s delims token : CString} (h : token ∈ strtok s delims) : token ⊆ s :=
  (Scan.infix_of_mem_tokens h).1.subset

/-- What `strstr` finds is part of the text. -/
theorem strstr_subset {s needle ptr : CString} (h : strstr s needle = some ptr) : ptr ⊆ s :=
  (Scan.findSub_eq_some h).2.subset

theorem parserName_subset (line : CString) : parserName line 256 [] ⊆ line := by
  rw [parserName, if_neg (by decide)]
  cases htokens : strtok (lineCopy line) (str " \t") with
  | nil => exact List.nil_subset _
  | cons token rest =>
      have htoken : token ∈ strtok (lineCopy line) (str " \t") := by
        rw [htokens]
        exact List.mem_cons_self
      calc copyTo 256 token
          ⊆ token := copyTo_subset 256 token
        _ ⊆ lineCopy line := token_subset htoken
        _ ⊆ line := copyTo_subset 256 line

theorem wordAfter_subset (marker line old : CString) : wordAfter marker line 256 old ⊆ line := by
  rw [wordAfter, if_neg (by decide)]
  cases hptr : strstr line marker with
  | none => exact List.nil_subset _
  | some ptr =>
      calc copyTo 256 (word (skipSpaces (ptr.drop marker.length)))
          ⊆ word (skipSpaces (ptr.drop marker.length)) := copyTo_subset 256 _
        _ ⊆ skipSpaces (ptr.drop marker.length) := (List.takeWhile_prefix _).subset
        _ ⊆ ptr.drop marker.length := (List.dropWhile_suffix _).subset
        _ ⊆ ptr := List.drop_subset _ _
        _ ⊆ line := strstr_subset hptr

/-- The text after a marker is part of a token. -/
theorem lastMarked_subset {s marker : CString} {tokens : List CString}
    (h : ∀ token ∈ tokens, token ⊆ s) : lastMarked marker tokens ⊆ s := by
  rw [lastMarked]
  cases hlast : (tokens.filter fun w => marker <+: w).getLast? with
  | none => exact List.nil_subset _
  | some w =>
      have hw : w ∈ tokens := List.mem_of_mem_filter (List.mem_of_getLast? hlast)
      exact List.Subset.trans (List.drop_subset _ _) (h w hw)

theorem ipv4Fields_subset {s : CString} (sizes : Ipv4Sizes) {tokens : List CString}
    (h : ∀ token ∈ tokens, token ⊆ s) :
    (ipv4Fields sizes tokens).ipv4 ⊆ s ∧ (ipv4Fields sizes tokens).bcast ⊆ s ∧
      (ipv4Fields sizes tokens).mask ⊆ s := by
  cases tokens with
  | nil => exact ⟨List.nil_subset _, List.nil_subset _, List.nil_subset _⟩
  | cons token later =>
      obtain ⟨htoken, hlater⟩ := List.forall_mem_cons.mp h
      refine ⟨?_, ?_, ?_⟩
      · exact List.Subset.trans (copyTo_subset _ _) htoken
      · exact List.Subset.trans (copyTo_subset _ _) (lastMarked_subset hlater)
      · exact List.Subset.trans (copyTo_subset _ _) (lastMarked_subset hlater)

/-- The three fields of an address line are parts of it. -/
theorem parserIpv4_subset (line : CString) (old : Ipv4) :
    (parserIpv4 line ⟨256, 256, 256⟩ old).ipv4 ⊆ line ∧
      (parserIpv4 line ⟨256, 256, 256⟩ old).bcast ⊆ line ∧
      (parserIpv4 line ⟨256, 256, 256⟩ old).mask ⊆ line := by
  rw [parserIpv4_eq (by decide) (by decide) (by decide)]
  cases htext : ipv4Text line with
  | none => exact ⟨List.nil_subset _, List.nil_subset _, List.nil_subset _⟩
  | some text =>
      apply ipv4Fields_subset
      intro token htoken
      obtain ⟨ptr, hptr, hdrop⟩ := Option.map_eq_some_iff.mp htext
      calc token
          ⊆ lineCopy text := token_subset htoken
        _ ⊆ text := copyTo_subset 256 text
        _ ⊆ ptr := by
          rw [← hdrop]
          exact List.drop_subset _ _
        _ ⊆ line := strstr_subset hptr

/-- The status is one of two words. -/
theorem newline_not_mem_parserStatus (line old : CString) :
    newline ∉ parserStatus line 256 old := by
  rw [parserStatus, if_neg (by decide)]
  split_ifs <;> decide

/-- A line read into the buffers leaves lines there. -/
theorem parseSubLine_isLines {bufs : Buffers} (hbufs : IsLines bufs) {line : CString}
    (h : newline ∉ line) : IsLines (parseSubLine bufs line) := by
  rw [isLines_iff] at hbufs ⊢
  obtain ⟨hname, hmac, hipv4, hbcast, hmask, hipv6, hstatus⟩ := hbufs
  unfold parseSubLine
  split_ifs
  · obtain ⟨hipv4', hbcast', hmask'⟩ :=
      parserIpv4_subset line ⟨bufs.ipv4, bufs.bcast, bufs.mask⟩
    exact ⟨hname, hmac, fun hmem => h (hipv4' hmem), fun hmem => h (hbcast' hmem),
      fun hmem => h (hmask' hmem), hipv6, hstatus⟩
  · have hipv6' : parserIpv6 line 256 bufs.ipv6 ⊆ line := wordAfter_subset _ _ _
    exact ⟨hname, hmac, hipv4, hbcast, hmask, fun hmem => h (hipv6' hmem), hstatus⟩
  · exact ⟨hname, hmac, hipv4, hbcast, hmask, hipv6, newline_not_mem_parserStatus line bufs.status⟩
  · exact ⟨hname, hmac, hipv4, hbcast, hmask, hipv6, hstatus⟩

/-- The nodes of the list and the buffers hold lines. -/
def ParseState.IsLines (s : ParseState) : Prop :=
  (∀ node ∈ s.head, Iface.IsLines node) ∧ Iface.IsLines s.bufs

theorem flush_isLines {head : List Node} {bufs : Buffers} (hhead : ∀ node ∈ head, IsLines node)
    (hbufs : IsLines bufs) (heap : Alloc) : ∀ node ∈ (flush head bufs heap).1, IsLines node := by
  rcases flush_cases head bufs heap with h | ⟨h, -, -⟩
  · rw [h]
    exact hhead
  · rw [h]
    intro node hnode
    rcases List.mem_append.mp hnode with hnode | hnode
    · exact hhead node hnode
    · rw [List.mem_singleton.mp hnode]
      exact hbufs

theorem emptyBuffers_isLines : IsLines emptyBuffers := by
  rw [isLines_iff]
  decide

/-- **One line** keeps the newlines out. -/
theorem parseLine_isLines {s : ParseState} (hs : s.IsLines) {line : CString}
    (h : newline ∉ line) : (parseLine s line).IsLines := by
  obtain ⟨hhead, hbufs⟩ := hs
  cases hheader : isHeader line with
  | true =>
      rw [parseLine_header hheader]
      refine ⟨flush_isLines hhead hbufs s.heap, ?_⟩
      obtain ⟨-, -, hipv4, hbcast, hmask, hipv6, hstatus⟩ := isLines_iff.mp emptyBuffers_isLines
      have hname : newline ∉ parserName line 256 [] := fun hmem => h (parserName_subset line hmem)
      have hmac : newline ∉ parserMac line 256 [] := fun hmem => h (wordAfter_subset _ line [] hmem)
      exact isLines_iff.mpr ⟨hname, hmac, hipv4, hbcast, hmask, hipv6, hstatus⟩
  | false =>
      rw [parseLine_not_header hheader]
      refine ⟨hhead, ?_⟩
      dsimp only
      split_ifs
      · exact parseSubLine_isLines hbufs h
      · exact hbufs

theorem foldl_parseLine_isLines {lines : List CString} (hlines : ∀ line ∈ lines, newline ∉ line) :
    ∀ s : ParseState, s.IsLines → (lines.foldl parseLine s).IsLines := by
  induction lines with
  | nil => exact fun s hs => hs
  | cons line lines ih =>
      intro s hs
      have hline : newline ∉ line := hlines line List.mem_cons_self
      exact ih (fun l hl => hlines l (List.mem_cons_of_mem line hl)) _
        (parseLine_isLines hs hline)

/-- **A whole buffer**: the parser adds nodes whose fields are lines, whatever the bytes
of the buffer and whichever allocations fail. -/
theorem parseDataBuffer_isLines {head : List Node} (hhead : ∀ node ∈ head, IsLines node)
    (dataBuffer : Option CString) (heap : Alloc) :
    ∀ node ∈ (parseDataBuffer head dataBuffer heap).1, IsLines node := by
  cases dataBuffer with
  | none => exact hhead
  | some data =>
      rw [parseDataBuffer]
      obtain ⟨ok, heap'⟩ := alloc heap
      cases ok with
      | false => exact hhead
      | true =>
          -- the splitter leaves no newline in a line
          have hlines : ∀ line ∈ strtok data (str "\n"), newline ∉ line := by
            intro line hline hmem
            have hclean := (Scan.infix_of_mem_tokens hline).2 newline hmem
            exact absurd hclean (by decide)
          have hend := foldl_parseLine_isLines hlines ⟨head, emptyBuffers, heap'⟩
            ⟨hhead, emptyBuffers_isLines⟩
          exact flush_isLines hend.1 hend.2 _

/-! ## Reading the file back -/

/-- A list of nodes made of lines is the image of one. -/
theorem exists_map_nodeOf {head : List Node} (h : ∀ node ∈ head, IsLines node) :
    ∃ xs : List (Fields Line), xs.map nodeOf = head := by
  induction head with
  | nil => exact ⟨[], rfl⟩
  | cons node head ih =>
      obtain ⟨x, hx⟩ := h node List.mem_cons_self
      obtain ⟨xs, hxs⟩ := ih fun n hn => h n (List.mem_cons_of_mem node hn)
      exact ⟨x :: xs, by rw [List.map_cons, hx, hxs]⟩

/-- A saved list of nodes made of lines is read back. -/
theorem decodeSaved_saveNodes {head : List Node} (h : ∀ node ∈ head, IsLines node) :
    decodeSaved (saveNodes head) = some head := by
  obtain ⟨xs, rfl⟩ := exists_map_nodeOf h
  rw [saveNodes_nodeOf, decodeSaved, Frame.decodeAll_flatMap encode_nodeFrame_ne_nil,
    Option.map_some]

/-- **The saved list is unambiguous.**  `decodeSaved` reads it back from the file, and so
two parsed lists that are saved as the same file are equal. -/
theorem saved_list_unambiguous :
    (∀ (data : Option CString) (heap : Alloc) (file : Option CString),
      (saveListToFile (parseDataBuffer [] data heap).1 true file).bind decodeSaved =
        some (parseDataBuffer [] data heap).1) ∧
    ∀ (data data' : Option CString) (heap heap' : Alloc) (file file' : Option CString),
      saveListToFile (parseDataBuffer [] data heap).1 true file =
        saveListToFile (parseDataBuffer [] data' heap').1 true file' →
      (parseDataBuffer [] data heap).1 = (parseDataBuffer [] data' heap').1 := by
  have hread : ∀ (data : Option CString) (heap : Alloc) (file : Option CString),
      (saveListToFile (parseDataBuffer [] data heap).1 true file).bind decodeSaved =
        some (parseDataBuffer [] data heap).1 := by
    intro data heap file
    apply decodeSaved_saveNodes
    exact parseDataBuffer_isLines (fun node hnode => absurd hnode List.not_mem_nil) data heap
  refine ⟨hread, ?_⟩
  intro data data' heap heap' file file' h
  have hback := hread data heap file
  rw [h, hread data' heap' file'] at hback
  exact (Option.some.inj hback).symm

/-- Two buffers that differ in an empty line. -/
theorem saved_list_unambiguous_lo :
    (parseDataBuffer [] (some (str "lo Link encap:Local")) []).1 =
      (parseDataBuffer [] (some (str "\nlo Link encap:Local\n")) []).1 :=
  saved_list_unambiguous.2 _ _ [] [] none none (by decide +kernel)

end Iface

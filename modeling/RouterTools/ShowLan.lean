/-
# `show_lan_config` of `uci_handler.c`

The function loads the package `network`, looks for the first section of type
`interface` and name `lan`, and writes its options to a file, one line each.  The values
of a list option are joined in a buffer of 1024 bytes by `strncat`, whose bound is
computed from what is in the buffer already.  Sections, options and items are circular
lists; each loop over one takes its rounds from `fuel`.
-/
import Mathlib.Algebra.Order.BigOperators.Group.List
import Mathlib.Algebra.Order.Group.Nat
import RouterTools.CString
import RouterTools.CircularList

namespace ShowLan

open CString

variable {P : Type*}

/-! ## A loaded package -/

/-- The type and the value of an option; `other` is a type that the function has no
branch for. -/
inductive OptionValue (P : Type*) where
  | string (s : CString)
  | list (items : CircularList P CString)
  | other

/-- `struct uci_option`. -/
structure UciOption (P : Type*) where
  name : CString
  v : OptionValue P

/-- `struct uci_section`. -/
structure UciSection (P : Type*) where
  type : CString
  name : CString
  options : CircularList P (UciOption P)

/-- `struct uci_package`. -/
structure UciPackage (P : Type*) where
  sections : CircularList P (UciSection P)

/-- Whether the calls before the search succeed. -/
structure Calls where
  fopen : Bool
  allocContext : Bool
  load : Bool

/-! ## The function -/

/-- `strncat(dest, src, n)`. -/
def strncat (dest src : CString) (n : ℕ) : CString := dest ++ src.take n

/-- One round over the items: `list_buffer` and `first_in_list`.  The buffer never holds
more than 1023 bytes (`length_appendItem`), so that neither bound wraps around. -/
def appendItem (item : CString) (s : CString × Bool) : CString × Bool :=
  let (listBuffer, firstInList) := s
  let listBuffer :=
    if firstInList then listBuffer else strncat listBuffer (str " ") (1024 - listBuffer.length - 1)
  (strncat listBuffer item (1024 - listBuffer.length - 1), false)

/-- `fprintf(outfile, "%s = %s\n", ...)`. -/
def optionLine (optionName optionValueStr : CString) : CString :=
  optionName ++ str " = " ++ optionValueStr ++ str "\n"

/-- `strcmp(type, "interface") == 0 && strcmp(name, "lan") == 0`. -/
def isLan (current : UciSection P) : Bool :=
  current.type = str "interface" && current.name = str "lan"

/-- What is in `list_buffer` after the loop over the items. -/
def joinItems [DecidableEq P] (fuel : ℕ) (items : CircularList P CString) : Option CString :=
  (items.foreach fuel ([], true) fun item s => some (.yield (appendItem item s))).map Prod.fst

/-- One round over the options. -/
def showOption [DecidableEq P] (fuel : ℕ) (opt : UciOption P) (outfile : CString) : Option (ForInStep CString) :=
  match opt.v with
  | .string value => some (.yield (outfile ++ optionLine opt.name value))
  | .list items =>
      (joinItems fuel items).map fun listBuffer => .yield (outfile ++ optionLine opt.name listBuffer)
  | .other => some (.yield outfile)

/-- `show_lan_config`: what it returns, and the file afterwards; `file` is the file before,
none if there is none. -/
def showLanConfig [DecidableEq P] (calls : Calls) (pkg : UciPackage P) (fuel : ℕ) (file : Option CString) :
    Option (ℤ × Option CString) :=
  if calls.fopen then
    if calls.allocContext then
      if calls.load then
        let search := pkg.sections.foreach fuel none fun current sLan =>
          if isLan current then some (.done (some current)) else some (.yield sLan)
        match search with
        | none => none
        | some none => some (-1, some [])
        | some (some sLan) =>
            (sLan.options.foreach fuel (str "[interface.lan]\n") (showOption fuel)).map
              fun outfile => (0, some outfile)
      else some (-1, some [])
    else some (-1, some [])
  else some (-1, file)

/-! ## What the file is to hold -/

/-- The text of an option's value: a string, or the items of a list joined by single
spaces and cut at 1023 bytes. -/
def shownValue : OptionValue P → Option CString
  | .string value => some value
  | .list items => some ((List.intercalate (str " ") items.toList).take 1023)
  | .other => none

/-- The line of an option, if its value is shown. -/
def optionText (opt : UciOption P) : CString :=
  match shownValue opt.v with
  | none => []
  | some value => optionLine opt.name value

/-- The file for the section. -/
def lanText (sLan : UciSection P) : CString :=
  str "[interface.lan]\n" ++ sLan.options.toList.flatMap optionText

/-! ## The join -/

/-- Appending within the room left is appending and cutting. -/
theorem strncat_take (s t : CString) :
    strncat (s.take 1023) t (1024 - (s.take 1023).length - 1) = (s ++ t).take 1023 := by
  -- a full buffer has no room, and cuts no more
  have hroom : 1024 - (s.take 1023).length - 1 = 1023 - s.length := by
    rw [List.length_take]
    omega
  rw [strncat, hroom, List.take_append]

theorem appendItem_first (item : CString) :
    appendItem item ([], true) = (item.take 1023, false) := rfl

theorem appendItem_later (item s : CString) :
    appendItem item (s.take 1023, false) = ((s ++ str " " ++ item).take 1023, false) := by
  rw [appendItem]
  simp only [Bool.false_eq_true, if_false]
  rw [strncat_take, strncat_take]

/-- The buffer does not overflow. -/
theorem length_appendItem (item : CString) {s : CString × Bool} (h : s.1.length ≤ 1023) :
    (appendItem item s).1.length ≤ 1023 := by
  have hcut : s.1.take 1023 = s.1 := List.take_of_length_le h
  obtain ⟨listBuffer, firstInList⟩ := s
  dsimp only at hcut
  cases firstInList with
  | true =>
      have hstep := strncat_take listBuffer item
      rw [hcut] at hstep
      rw [appendItem]
      simp only [if_true, hstep, List.length_take]
      exact min_le_left _ _
  | false =>
      rw [← hcut, appendItem_later, List.length_take]
      exact min_le_left _ _

/-- The later items are appended with a space in front of each. -/
theorem foldl_appendItem (items : List CString) : ∀ s : CString,
    items.foldl (fun s item => appendItem item s) (s.take 1023, false) =
      ((s ++ items.flatMap fun item => str " " ++ item).take 1023, false) := by
  induction items with
  | nil =>
      intro s
      rw [List.foldl_nil, List.flatMap_nil, List.append_nil]
  | cons item items ih =>
      intro s
      rw [List.foldl_cons, appendItem_later, ih, List.flatMap_cons]
      simp only [List.append_assoc]

theorem intercalate_cons (sep x : CString) (xs : List CString) :
    List.intercalate sep (x :: xs) = x ++ xs.flatMap fun y => sep ++ y := by
  induction xs generalizing x with
  | nil => simp [List.intercalate]
  | cons y xs ih =>
      rw [List.intercalate_cons_cons, ih, List.flatMap_cons]
      simp only [List.append_assoc]

/-- **The join is the truncated join**, for every number of items and every length. -/
theorem joinItems_eq [DecidableEq P] (items : CircularList P CString) {fuel : ℕ}
    (h : items.nodes.length < fuel) :
    joinItems fuel items = some ((List.intercalate (str " ") items.toList).take 1023) := by
  rw [joinItems, CircularList.foreach_yield h fun _ _ _ => rfl, Option.map_some]
  congr 1
  cases items.toList with
  | nil => rfl
  | cons item later =>
      rw [List.foldl_cons, appendItem_first, foldl_appendItem, intercalate_cons]

/-! ## The file -/

/-- The rounds that the longest list among some options takes. -/
def rounds (opt : UciOption P) : ℕ :=
  match opt.v with
  | .list items => items.nodes.length
  | _ => 0

theorem showOption_eq [DecidableEq P] {fuel : ℕ} {opt : UciOption P} (h : rounds opt < fuel) (outfile : CString) :
    showOption fuel opt outfile = some (.yield (outfile ++ optionText opt)) := by
  obtain ⟨name, v⟩ := opt
  cases v with
  | string value => rfl
  | list items =>
      rw [showOption]
      dsimp only
      rw [joinItems_eq items h]
      rfl
  | other =>
      show some (ForInStep.yield outfile) = some (.yield (outfile ++ []))
      rw [List.append_nil]

/-- The loop over the options writes the file of the section. -/
theorem foreach_showOption [DecidableEq P] (sLan : UciSection P) {fuel : ℕ}
    (hoptions : sLan.options.nodes.length < fuel)
    (hitems : ∀ opt ∈ sLan.options.toList, rounds opt < fuel) :
    sLan.options.foreach fuel (str "[interface.lan]\n") (showOption fuel) =
      some (lanText sLan) := by
  rw [CircularList.foreach_yield hoptions fun opt hopt s => showOption_eq (hitems opt hopt) s,
    List.foldl_append_eq_append, ← List.flatMap_def, lanText]

/-- **The LAN section is written faithfully.**  With enough fuel the function returns: with
the file of the first section of type `interface` and name `lan`, or with -1 and an empty
file when there is none. -/
theorem show_lan_config_faithful [DecidableEq P] (pkg : UciPackage P) (file : Option CString) :
    ∃ enough, ∀ fuel ≥ enough,
      showLanConfig ⟨true, true, true⟩ pkg fuel file =
        some (match pkg.sections.toList.find? isLan with
          | none => (-1, some [])
          | some sLan => (0, some (lanText sLan))) := by
  cases hfind : pkg.sections.toList.find? isLan with
  | none =>
      refine ⟨pkg.sections.nodes.length + 1, ?_⟩
      intro fuel hfuel
      rw [showLanConfig]
      simp only [if_true]
      rw [CircularList.foreach_find hfuel, hfind]
  | some sLan =>
      refine ⟨pkg.sections.nodes.length + sLan.options.nodes.length +
        (sLan.options.toList.map rounds).sum + 1, ?_⟩
      intro fuel hfuel
      -- the fuel is enough for the longest list of items
      have hitems : ∀ opt ∈ sLan.options.toList, rounds opt < fuel := by
        intro opt hopt
        have hle : rounds opt ≤ (sLan.options.toList.map rounds).sum :=
          List.le_sum_of_mem (List.mem_map_of_mem hopt)
        omega
      rw [showLanConfig]
      simp only [if_true]
      rw [CircularList.foreach_find (by omega), hfind]
      dsimp only
      rw [foreach_showOption sLan (by omega) hitems]
      rfl

/-- A list option whose items are empty at the ends. -/
example :
    (showLanConfig ⟨true, true, true⟩
      ⟨CircularList.ofList ⟨[], [], .ofList ⟨[], .other⟩ []⟩
        [⟨str "interface", str "lan", .ofList ⟨[], .other⟩
          [⟨str "proto", .string (str "static")⟩,
            ⟨str "dns", .list (.ofList [] [[], str "10.0.0.1", []])⟩]⟩]⟩ 5 none) =
      some (0, some (str "[interface.lan]\nproto = static\ndns =  10.0.0.1 \n")) := by
  decide +kernel

end ShowLan

/-
# Searching and cutting sequences

The two ways C code takes a text apart, over any alphabet:

* `findSub` : the rest of a text from the first occurrence of a needle (`strstr`);
* `tokens` : the maximal pieces without a delimiter, one `nextToken` after another
  (`strtok`).

`tokens_eq_splitOnP` says that the tokens are the non-empty pieces of the text split at
its delimiters; the lemmas on appends are what a parser of a rendered text rests on.
-/
import Mathlib.Data.List.Basic
import Mathlib.Data.List.DropRight
import Mathlib.Data.List.Infix
import Mathlib.Data.List.TakeWhile

namespace Scan

variable {α : Type*}

/-! ## Substring search -/

section Find

variable [DecidableEq α]

/-- The rest of the text from the first occurrence of the needle; `none` when the needle
does not occur. -/
def findSub (needle : List α) : List α → Option (List α)
  | [] => if needle = [] then some [] else none
  | c :: s => if needle <+: c :: s then some (c :: s) else findSub needle s

variable {needle s p : List α}

/-- What is found is a suffix of the text that starts with the needle. -/
theorem findSub_eq_some {found : List α} (h : findSub needle s = some found) :
    needle <+: found ∧ found <:+ s := by
  induction s with
  | nil =>
      rw [findSub] at h
      split at h
      · rename_i hnil
        cases h
        exact ⟨by rw [hnil], List.suffix_refl _⟩
      · cases h
  | cons c s ih =>
      rw [findSub] at h
      split at h
      · rename_i hpre
        cases h
        exact ⟨hpre, List.suffix_refl _⟩
      · obtain ⟨hpre, hsuf⟩ := ih h
        exact ⟨hpre, hsuf.trans (List.suffix_cons c s)⟩

/-- The search succeeds exactly when the needle occurs in the text. -/
theorem findSub_isSome_iff : (findSub needle s).isSome ↔ needle <:+: s := by
  induction s with
  | nil =>
      rw [findSub, List.infix_nil]
      split <;> simp_all
  | cons c s ih =>
      rw [findSub, List.infix_cons_iff]
      split
      · simp_all
      · rename_i hpre
        rw [ih]
        simp only [hpre, false_or]

theorem findSub_eq_none_iff : findSub needle s = none ↔ ¬ needle <:+: s := by
  rw [← findSub_isSome_iff, Option.not_isSome_iff_eq_none]

/-- A text that starts with the needle is found whole. -/
theorem findSub_of_prefix (h : needle <+: s) : findSub needle s = some s := by
  cases s with
  | nil => rw [findSub, if_pos (List.prefix_nil.mp h)]
  | cons c s => rw [findSub, if_pos h]

/-- The search passes over a letter the needle does not start with. -/
theorem findSub_cons_of_ne {c d : α} (h : c ≠ d) :
    findSub (d :: needle) (c :: s) = findSub (d :: needle) s := by
  rw [findSub, if_neg fun hpre => h (List.cons_prefix_cons.mp hpre).1.symm]

/-- The search passes over a run of such letters. -/
theorem findSub_replicate_append {c d : α} (h : c ≠ d) (k : ℕ) :
    findSub (d :: needle) (List.replicate k c ++ s) = findSub (d :: needle) s := by
  induction k with
  | zero => rfl
  | succ k ih => rw [List.replicate_succ, List.cons_append, findSub_cons_of_ne h, ih]

/-- The search passes over a text without the first letter of the needle. -/
theorem findSub_append_of_not_mem {d : α} {p : List α} (h : d ∉ p) (s : List α) :
    findSub (d :: needle) (p ++ s) = findSub (d :: needle) s := by
  induction p with
  | nil => rfl
  | cons c p ih =>
      rw [List.mem_cons, not_or] at h
      rw [List.cons_append, findSub_cons_of_ne (Ne.symm h.1), ih h.2]

/-- A first occurrence in the front part is the first occurrence in the whole. -/
theorem findSub_append_of_some {found : List α} (h : findSub needle p = some found) :
    findSub needle (p ++ s) = some (found ++ s) := by
  induction p with
  | nil =>
      rw [findSub] at h
      split at h
      · rename_i hnil
        cases h
        exact findSub_of_prefix (by rw [hnil]; exact List.nil_prefix)
      · cases h
  | cons c p ih =>
      rw [findSub] at h
      split at h
      · rename_i hpre
        cases h
        exact findSub_of_prefix (hpre.trans (List.prefix_append _ s))
      · rename_i hpre
        rw [List.cons_append, findSub, if_neg, ih h]
        rintro ⟨r, hr⟩
        apply hpre
        -- the occurrence found later in `p` bounds the length of the needle
        have hlen : needle.length ≤ (c :: p).length := by
          obtain ⟨hp, hs⟩ := findSub_eq_some h
          have h1 := hp.length_le
          have h2 := hs.length_le
          simp only [List.length_cons]
          omega
        exact List.prefix_of_prefix_length_le ⟨r, hr⟩ (List.prefix_append (c :: p) s) hlen

/-- The search passes over a part without the needle and the separator after it, when
the separator is not a letter of the needle. -/
theorem findSub_append_cons {c : α} (hc : c ∉ needle) (hne : needle ≠ [])
    (hp : ¬ needle <:+: p) : findSub needle (p ++ c :: s) = findSub needle s := by
  induction p with
  | nil =>
      rw [List.nil_append, findSub, if_neg]
      intro hpre
      obtain ⟨d, needle, rfl⟩ := List.exists_cons_of_ne_nil hne
      rw [(List.cons_prefix_cons.mp hpre).1] at hc
      exact hc List.mem_cons_self
  | cons b p ih =>
      rw [List.infix_cons_iff, not_or] at hp
      rw [List.cons_append, findSub, if_neg, ih hp.2]
      rintro ⟨r, hr⟩
      -- the needle cannot reach past the separator
      have hsplit : needle ++ r = (b :: p) ++ c :: s := hr
      rw [List.append_eq_append_iff] at hsplit
      rcases hsplit with ⟨a, ha, -⟩ | ⟨a, ha, hcs⟩
      · exact hp.1 ⟨a, ha.symm⟩
      · cases a with
        | nil => exact hp.1 ⟨[], by rw [ha, List.append_nil, List.append_nil]⟩
        | cons x a =>
            rw [List.cons_append, List.cons.injEq] at hcs
            apply hc
            rw [ha, hcs.1]
            simp

end Find

/-! ## Occurrences across a separator -/

/-- An occurrence of `u ++ c :: v`, whose first `c` is the one shown, in a text whose
first `c` is the one shown: it lies on that `c` or after it. -/
theorem infix_append_cons_iff {u v p s : List α} {c : α} (hu : c ∉ u) (hp : c ∉ p) :
    (u ++ c :: v) <:+: (p ++ c :: s) ↔ (u <:+ p ∧ v <+: s) ∨ (u ++ c :: v) <:+: s := by
  constructor
  · rintro ⟨l, r, h⟩
    have hsplit : (l ++ u) ++ c :: (v ++ r) = p ++ c :: s := by
      rw [← h]
      simp
    rw [List.append_eq_append_iff] at hsplit
    rcases hsplit with ⟨a, ha, hcs⟩ | ⟨a, ha, hcs⟩
    · cases a with
      | nil =>
          rw [List.nil_append, List.cons.injEq] at hcs
          exact .inl ⟨⟨l, by rw [ha, List.append_nil]⟩, ⟨r, hcs.2⟩⟩
      | cons x a =>
          rw [List.cons_append, List.cons.injEq] at hcs
          exact absurd (by rw [ha, hcs.1]; simp) hp
    · cases a with
      | nil =>
          rw [List.nil_append, List.cons.injEq] at hcs
          exact .inl ⟨⟨l, by rw [ha, List.append_nil]⟩, ⟨r, hcs.2.symm⟩⟩
      | cons x a =>
          rw [List.cons_append, List.cons.injEq] at hcs
          obtain ⟨rfl, hs⟩ := hcs
          -- `c` is not in `u`, so `u` lies after it
          have hmid : l ++ u = (p ++ [c]) ++ a := by rw [ha]; simp
          rw [List.append_eq_append_iff] at hmid
          rcases hmid with ⟨b, hb, hub⟩ | ⟨b, hb, hab⟩
          · rcases b.eq_nil_or_concat with rfl | ⟨b, d, rfl⟩
            · refine .inr ⟨[], r, ?_⟩
              rw [hs, hub]
              simp
            · exfalso
              rw [List.concat_eq_append, ← List.append_assoc] at hb
              have hd : d = c := by simpa using (List.append_inj_right' hb rfl).symm
              exact hu (by rw [hub, hd]; simp)
          · exact .inr ⟨b, r, by rw [hs, hab]; simp⟩
  · rintro (⟨⟨l, rfl⟩, ⟨r, rfl⟩⟩ | ⟨l, r, rfl⟩)
    · exact ⟨l, r, by simp⟩
    · exact ⟨p ++ c :: l, r, by simp⟩

/-- A needle with a letter the text lacks does not occur in it. -/
theorem not_infix_of_not_mem {needle s : List α} {c : α} (hc : c ∈ needle) (hs : c ∉ s) :
    ¬ needle <:+: s :=
  fun h => hs (h.subset hc)

/-! ## Tokens -/

section Tokens

variable (delim : α → Bool)

/-- The next token of a text and what comes after the delimiter that ends it. -/
def nextToken (s : List α) : Option (List α × List α) :=
  match s.dropWhile delim with
  | [] => none
  | c :: rest => some ((c :: rest).takeWhile (fun b => !delim b),
      ((c :: rest).dropWhile (fun b => !delim b)).tail)

/-- The tokens that at most `fuel` calls give. -/
def tokensFrom : ℕ → List α → List (List α)
  | 0, _ => []
  | fuel + 1, s =>
      match nextToken delim s with
      | none => []
      | some (token, rest) => token :: tokensFrom fuel rest

/-- All tokens of a text: each call uses up a byte of it. -/
def tokens (s : List α) : List (List α) := tokensFrom delim s.length s

variable {delim}

/-- The non-empty pieces of a text split at its delimiters, computed piece by piece. -/
theorem filter_splitOnP_step (s : List α) :
    (s.splitOnP delim).filter (· ≠ []) =
      match nextToken delim s with
      | none => []
      | some (token, rest) => token :: (rest.splitOnP delim).filter (· ≠ []) := by
  induction s with
  | nil => rfl
  | cons c s ih =>
      by_cases hc : delim c = true
      · have hnext : nextToken delim (c :: s) = nextToken delim s := by
          rw [nextToken, nextToken, List.dropWhile_cons_of_pos hc]
        rw [List.splitOnP_cons_eq_if_modifyHead, if_pos hc, hnext, ← ih]
        rfl
      · rw [Bool.not_eq_true] at hc
        have hdrop : (c :: s).dropWhile delim = c :: s :=
          List.dropWhile_cons_of_neg (by simp [hc])
        have hsplit : c :: s = (c :: s).takeWhile (fun b => !delim b) ++
            (c :: s).dropWhile (fun b => !delim b) := List.takeWhile_append_dropWhile.symm
        have hclean : ∀ b ∈ (c :: s).takeWhile (fun b => !delim b), delim b = false :=
          fun b hb => by simpa using List.mem_takeWhile_imp hb
        have hne : (c :: s).takeWhile (fun b => !delim b) ≠ [] := by
          rw [List.takeWhile_cons_of_pos (by simp [hc])]
          exact List.cons_ne_nil _ _
        rw [nextToken, hdrop]
        dsimp only
        generalize (c :: s).takeWhile (fun b => !delim b) = token at *
        generalize hrest : (c :: s).dropWhile (fun b => !delim b) = rest at *
        rw [hsplit]
        cases rest with
        | nil => simp [List.splitOnP_eq_singleton hclean, hne]
        | cons d rest =>
            have hd : delim d = true := by
              have hne' : (c :: s).dropWhile (fun b => !delim b) ≠ [] := by simp [hrest]
              have hhead := List.head_dropWhile_not (fun b => !delim b) hne'
              simpa [hrest] using hhead
            rw [List.splitOnP_append_cons_of_forall_mem hclean d hd]
            simp [hne]

/-- A call uses up at least one byte. -/
theorem nextToken_length {s token rest : List α} (h : nextToken delim s = some (token, rest)) :
    rest.length < s.length := by
  unfold nextToken at h
  have hle : (s.dropWhile delim).length ≤ s.length := (List.dropWhile_suffix delim).length_le
  split at h
  · cases h
  · rename_i c r hdrop
    cases h
    have h1 : ((c :: r).dropWhile fun b => !delim b).length ≤ (c :: r).length :=
      (List.dropWhile_suffix _).length_le
    rw [hdrop] at hle
    rw [List.length_tail]
    simp only [List.length_cons] at hle h1
    omega

theorem tokensFrom_eq (fuel : ℕ) : ∀ s : List α, s.length ≤ fuel →
    tokensFrom delim fuel s = (s.splitOnP delim).filter (· ≠ []) := by
  induction fuel with
  | zero =>
      intro s hs
      rw [List.length_eq_zero_iff.mp (by omega : s.length = 0)]
      rfl
  | succ fuel ih =>
      intro s hs
      rw [tokensFrom, filter_splitOnP_step]
      cases hnext : nextToken delim s with
      | none => rfl
      | some next =>
          have hlt := nextToken_length hnext
          dsimp only
          rw [ih next.2 (by omega)]

/-- A text has no more tokens than bytes. -/
theorem length_tokens_le (delim : α → Bool) (s : List α) : (tokens delim s).length ≤ s.length := by
  have hfrom : ∀ (fuel : ℕ) (s : List α), (tokensFrom delim fuel s).length ≤ fuel := by
    intro fuel
    induction fuel with
    | zero => exact fun _ => Nat.le_refl _
    | succ fuel ih =>
        intro s
        rw [tokensFrom]
        split
        · exact Nat.zero_le _
        · exact Nat.succ_le_succ (ih _)
  exact hfrom s.length s

/-- **The tokens are the non-empty pieces between the delimiters.** -/
theorem tokens_eq_splitOnP (s : List α) :
    tokens delim s = (s.splitOnP delim).filter (· ≠ []) :=
  tokensFrom_eq s.length s le_rfl

/-- A delimiter in front is skipped. -/
theorem tokens_cons {d : α} (hd : delim d = true) (s : List α) :
    tokens delim (d :: s) = tokens delim s := by
  rw [tokens_eq_splitOnP, tokens_eq_splitOnP, List.splitOnP_cons_eq_if_modifyHead, if_pos hd]
  rfl

/-- A piece that a delimiter ends is the first token. -/
theorem tokens_append_cons {p : List α} {d : α} (hp : ∀ b ∈ p, delim b = false) (hne : p ≠ [])
    (hd : delim d = true) (s : List α) : tokens delim (p ++ d :: s) = p :: tokens delim s := by
  rw [tokens_eq_splitOnP, tokens_eq_splitOnP, List.splitOnP_append_cons_of_forall_mem hp d hd]
  simp [hne]

/-- A text without a delimiter is its one token. -/
theorem tokens_of_clean {p : List α} (hp : ∀ b ∈ p, delim b = false) (hne : p ≠ []) :
    tokens delim p = [p] := by
  rw [tokens_eq_splitOnP, List.splitOnP_eq_singleton hp]
  simp [hne]

/-- The first token of a text that does not start with a delimiter starts with its first
letter. -/
theorem head_tokens (delim : α → Bool) {c : α} (s : List α) (hc : delim c = false) :
    ∃ token rest, tokens delim (c :: s) = (c :: token) :: rest := by
  rw [tokens_eq_splitOnP, filter_splitOnP_step, nextToken,
    List.dropWhile_cons_of_neg (by simp [hc])]
  dsimp only
  rw [List.takeWhile_cons_of_pos (by simp [hc])]
  exact ⟨_, _, rfl⟩

/-- **Lines written one after another are read back**, the empty ones left out. -/
theorem tokens_flatMap {d : α} (hd : delim d = true) (lines : List (List α))
    (hclean : ∀ l ∈ lines, ∀ b ∈ l, delim b = false) :
    tokens delim (lines.flatMap fun l => l ++ [d]) = lines.filter (· ≠ []) := by
  induction lines with
  | nil => rfl
  | cons l lines ih =>
      have hrest := ih fun l' hl' => hclean l' (List.mem_cons_of_mem l hl')
      rw [List.flatMap_cons, List.append_assoc, List.singleton_append]
      by_cases hne : l = []
      · subst hne
        rw [List.nil_append, tokens_cons hd, hrest]
        rfl
      · rw [tokens_append_cons (hclean l List.mem_cons_self) hne hd, hrest,
          List.filter_cons_of_pos (by simp [hne])]

/-! ## A text in two parts -/

/-- The token that lies on the border of the two parts, if there is one there: its letters
in the front part and its letters in the back part. -/
def borderToken (delim : α → Bool) (p s : List α) : List α × List α :=
  (p.rtakeWhile (fun b => !delim b), s.takeWhile (fun b => !delim b))

/-- The tokens of `p ++ s`, each with the part of it that lies in `p`. -/
def tokensAcross (delim : α → Bool) (p s : List α) : List (List α × List α) :=
  let (left, right) := borderToken delim p s
  (tokens delim (p.rdropWhile (fun b => !delim b))).map (fun w => (w, w)) ++
    (if left ++ right = [] then [] else [(left ++ right, left)]) ++
    (tokens delim (s.dropWhile (fun b => !delim b))).map (fun w => (w, []))

/-- A delimiter parts the tokens in front of it from those after it. -/
theorem tokens_append_delim {d : α} (hd : delim d = true) (p s : List α) :
    tokens delim (p ++ d :: s) = tokens delim p ++ tokens delim s := by
  rw [tokens_eq_splitOnP, tokens_eq_splitOnP, tokens_eq_splitOnP,
    List.splitOnP_append_cons p s hd, List.filter_append]

/-- A text without delimiters and what follows it from a delimiter on. -/
theorem tokens_clean_append {w s : List α} (hw : ∀ b ∈ w, delim b = false)
    (hs : ∀ h : s ≠ [], delim (s.head h) = true) :
    tokens delim (w ++ s) = (if w = [] then [] else [w]) ++ tokens delim s := by
  cases s with
  | nil =>
      rw [List.append_nil]
      split_ifs with hnil
      · rw [hnil]
        rfl
      · rw [tokens_of_clean hw hnil]
        rfl
  | cons d s =>
      have hd : delim d = true := hs (List.cons_ne_nil d s)
      rw [tokens_append_delim hd, tokens_cons hd]
      split_ifs with hnil
      · rw [hnil]
        rfl
      · rw [tokens_of_clean hw hnil]

/-- A front part that is empty or ends with a delimiter has its tokens to itself. -/
theorem tokens_append_of_getLast {p : List α} (hp : ∀ h : p ≠ [], delim (p.getLast h) = true)
    (s : List α) : tokens delim (p ++ s) = tokens delim p ++ tokens delim s := by
  rcases p.eq_nil_or_concat with rfl | ⟨p, d, rfl⟩
  · rfl
  · rw [List.concat_eq_append] at hp ⊢
    have hd : delim d = true := by simpa using hp (by simp)
    have hfront : tokens delim (p ++ [d]) = tokens delim p := by
      rw [tokens_append_delim hd]
      exact List.append_nil _
    rw [List.append_assoc, List.singleton_append, tokens_append_delim hd, hfront]

/-- The front part is cut at its last delimiter, the back part at its first one. -/
theorem tokens_append (p s : List α) :
    tokens delim (p ++ s) =
      tokens delim (p.rdropWhile fun b => !delim b) ++
        (if (borderToken delim p s).1 ++ (borderToken delim p s).2 = [] then []
          else [(borderToken delim p s).1 ++ (borderToken delim p s).2]) ++
        tokens delim (s.dropWhile fun b => !delim b) := by
  -- between the last delimiter in front and the first one behind lies at most one token
  have hparts : p ++ s = (p.rdropWhile fun b => !delim b) ++
      (((borderToken delim p s).1 ++ (borderToken delim p s).2) ++
        s.dropWhile fun b => !delim b) := by
    have hp := List.rdropWhile_append_rtakeWhile (p := fun b => !delim b) (l := p)
    have hs := List.takeWhile_append_dropWhile (p := fun b => !delim b) (l := s)
    rw [borderToken, List.append_assoc, hs, ← List.append_assoc, hp]
  have hclean : ∀ b ∈ (borderToken delim p s).1 ++ (borderToken delim p s).2,
      delim b = false := by
    intro b hb
    rcases List.mem_append.mp hb with h | h
    · simpa using List.mem_rtakeWhile_imp h
    · simpa using List.mem_takeWhile_imp h
  have hlast : ∀ h : (p.rdropWhile fun b => !delim b) ≠ [],
      delim ((p.rdropWhile fun b => !delim b).getLast h) = true := by
    intro h
    simpa using List.rdropWhile_last_not (fun b => !delim b) p h
  have hhead : ∀ h : (s.dropWhile fun b => !delim b) ≠ [],
      delim ((s.dropWhile fun b => !delim b).head h) = true := by
    intro h
    simpa using List.head_dropWhile_not (fun b => !delim b) h
  nth_rewrite 1 [hparts]
  rw [tokens_append_of_getLast hlast, tokens_clean_append hclean hhead, List.append_assoc]

/-- **The tokens of the whole text.** -/
theorem map_fst_tokensAcross (p s : List α) :
    (tokensAcross delim p s).map Prod.fst = tokens delim (p ++ s) := by
  rw [tokens_append, tokensAcross]
  simp only [List.map_append, List.map_map, Function.comp_def, List.map_id']
  split_ifs <;> rfl

/-- **The tokens of the front part** are the shown parts that are not empty. -/
theorem filter_map_snd_tokensAcross (p s : List α) :
    ((tokensAcross delim p s).map Prod.snd).filter (· ≠ []) = tokens delim p := by
  -- a token is not empty, and nothing is shown of those in the back part
  have hkept : (tokens delim (p.rdropWhile fun b => !delim b)).filter (· ≠ []) =
      tokens delim (p.rdropWhile fun b => !delim b) := by
    rw [tokens_eq_splitOnP, List.filter_filter]
    simp
  have hback : ((tokens delim (s.dropWhile fun b => !delim b)).map fun _ => ([] : List α)).filter
      (· ≠ []) = [] := by
    simp
  have hp : tokens delim p = tokens delim (p.rdropWhile fun b => !delim b) ++
      if (borderToken delim p s).1 = [] then [] else [(borderToken delim p s).1] := by
    have happ : tokens delim (p ++ []) = _ := tokens_append p []
    simp only [List.append_nil, borderToken, List.takeWhile_nil, List.dropWhile_nil] at happ
    rw [happ]
    exact List.append_nil _
  rw [hp, tokensAcross]
  simp only [List.map_append, List.map_map, Function.comp_def, List.map_id', List.filter_append,
    hkept, hback, List.append_nil]
  congr 1
  by_cases hleft : (borderToken delim p s).1 = []
  · rw [if_pos hleft]
    split_ifs <;> simp [hleft]
  · rw [if_neg hleft, if_neg (by simp [hleft])]
    simp [hleft]

/-- What is shown of a token is the front of it. -/
theorem shown_prefix_of_mem_tokensAcross {p s : List α} {q : List α × List α}
    (h : q ∈ tokensAcross delim p s) : q.2 <+: q.1 := by
  simp only [tokensAcross, List.mem_append, List.mem_map] at h
  rcases h with (⟨w, -, rfl⟩ | h) | ⟨w, -, rfl⟩
  · exact List.prefix_refl w
  · split_ifs at h
    · cases h
    · rw [List.mem_singleton] at h
      subst h
      exact List.prefix_append _ _
  · exact List.nil_prefix

/-- **Nothing is shown after a token that is not shown whole.** -/
theorem pairwise_tokensAcross (p s : List α) :
    (tokensAcross delim p s).Pairwise fun a b => a.2 = a.1 ∨ b.2 = [] := by
  rw [tokensAcross]
  refine List.pairwise_append.mpr ⟨List.pairwise_append.mpr ⟨?_, ?_, ?_⟩, ?_, ?_⟩
  · rw [List.pairwise_map]
    exact List.pairwise_of_forall fun _ _ => .inl rfl
  · split_ifs
    · exact List.Pairwise.nil
    · exact List.pairwise_singleton _ _
  · intro a ha b _
    obtain ⟨w, -, rfl⟩ := List.mem_map.mp ha
    exact .inl rfl
  · rw [List.pairwise_map]
    exact List.pairwise_of_forall fun _ _ => .inr rfl
  · intro a _ b hb
    obtain ⟨w, -, rfl⟩ := List.mem_map.mp hb
    exact .inr rfl

/-- A token has a letter. -/
theorem ne_nil_of_mem_tokens {s token : List α} (h : token ∈ tokens delim s) : token ≠ [] := by
  rw [tokens_eq_splitOnP] at h
  simpa using (List.mem_filter.mp h).2

theorem nextToken_infix {s token rest : List α} (h : nextToken delim s = some (token, rest)) :
    token <:+: s ∧ rest <:+ s ∧ ∀ b ∈ token, delim b = false := by
  have hdrop : s.dropWhile delim <:+ s := List.dropWhile_suffix delim
  unfold nextToken at h
  split at h
  · cases h
  · rename_i c r heq
    cases h
    rw [heq] at hdrop
    refine ⟨?_, ?_, fun b hb => by simpa using List.mem_takeWhile_imp hb⟩
    · exact (List.takeWhile_prefix _).isInfix.trans hdrop.isInfix
    · exact (List.tail_suffix _).trans ((List.dropWhile_suffix _).trans hdrop)

theorem tokensFrom_infix (fuel : ℕ) : ∀ s : List α, ∀ token ∈ tokensFrom delim fuel s,
    token <:+: s ∧ ∀ b ∈ token, delim b = false := by
  induction fuel with
  | zero =>
      intro s token h
      cases h
  | succ fuel ih =>
      intro s token h
      rw [tokensFrom] at h
      cases hnext : nextToken delim s with
      | none =>
          rw [hnext] at h
          cases h
      | some next =>
          obtain ⟨hin, hrest, hclean⟩ := nextToken_infix hnext
          rw [hnext] at h
          rcases List.mem_cons.mp h with rfl | h
          · exact ⟨hin, hclean⟩
          · obtain ⟨hin', hclean'⟩ := ih next.2 token h
            exact ⟨hin'.trans hrest.isInfix, hclean'⟩

/-- **A token is a piece of the text without a delimiter.** -/
theorem infix_of_mem_tokens {s token : List α} (h : token ∈ tokens delim s) :
    token <:+: s ∧ ∀ b ∈ token, delim b = false :=
  tokensFrom_infix s.length s token h

end Tokens

end Scan

import Mathlib.Data.List.DropRight

/-!
# Lines and words

Texts over any alphabet: the lines of a text, a line without the white space at its ends, and the
words of a line. `space` says which characters are white space, `nl` ends a line, and `cr` may
stand before it.

White space at the ends of a line changes neither the line trimmed (`trim_append`) nor its words
(`words_trim`), and a line without white space at its ends is its first word and the words of what
is behind it (`words_eq_cons`). Lines written one after the other, each with its end, are read
back, up to a `cr` at the end of one (`lines_unlines_append`).

**Alphabet.** `space` is a predicate on any type of characters, and `nl` and `cr` are two
characters of it; the theorems about words ask nothing of them, and those about lines only that
`cr` is white space where trimming has to remove it (`trim_stripEnd`).

* `trim` drops white space at both ends, by Mathlib's `List.dropWhile` and `List.rdropWhile`, and
  `exists_eq_trim` splits a line into what is dropped and what stays.
* `words` splits at every white space and drops the empty pieces, so any number of separators
  counts as one.
* `splitFirst` splits at the first white space only, as a parser does that reads a keyword and
  hands the rest on.
* `lines` ends a line at each `nl`, and has no last line if nothing is behind the last `nl`.
-/

namespace Text

variable {α : Type*}

section Space

variable (space : α → Bool)

/-- A line without the white space at its ends. -/
def trim (l : List α) : List α := (l.dropWhile space).rdropWhile space

/-- The part before the first white space, and the part behind it, if there is any. -/
def splitFirst (l : List α) : List α × Option (List α) :=
  (l.takeWhile (!space ·), match l.dropWhile (!space ·) with
    | [] => none
    | _ :: rest => some rest)

/-- The maximal stretches without white space. -/
def words (l : List α) : List (List α) := (l.splitOnP space).filter (!·.isEmpty)

variable {space} {l m w before after : List α} {c : α}

/-! ### Trimming -/

@[simp] theorem trim_nil : trim space [] = [] := rfl

theorem trim_eq_nil_iff : trim space l = [] ↔ ∀ c ∈ l, space c = true := by
  rw [trim, List.rdropWhile_eq_nil_iff]
  constructor
  · intro h c hc
    rw [← List.takeWhile_append_dropWhile (p := space) (l := l), List.mem_append] at hc
    rcases hc with hc | hc
    · exact List.mem_takeWhile_imp hc
    · exact h c hc
  · intro h c hc
    exact h c ((List.dropWhile_suffix space).subset hc)

theorem rdropWhile_append (h : ∀ c ∈ after, space c = true) :
    (l ++ after).rdropWhile space = l.rdropWhile space := by
  rw [List.rdropWhile, List.reverse_append, List.dropWhile_append_of_pos, List.rdropWhile]
  exact fun c hc => h c (List.mem_reverse.mp hc)

theorem trim_append_left (h : ∀ c ∈ before, space c = true) :
    trim space (before ++ l) = trim space l := by
  rw [trim, List.dropWhile_append_of_pos h, trim]

theorem trim_append_right (h : ∀ c ∈ after, space c = true) :
    trim space (l ++ after) = trim space l := by
  rw [trim, List.dropWhile_append, trim]
  split_ifs with hnil
  · rw [List.isEmpty_iff.mp hnil, List.rdropWhile_nil, List.rdropWhile_eq_nil_iff]
    exact fun c hc => h c ((List.dropWhile_suffix space).subset hc)
  · exact rdropWhile_append h

/-- White space around a line. -/
theorem trim_append (hbefore : ∀ c ∈ before, space c = true)
    (hafter : ∀ c ∈ after, space c = true) :
    trim space (before ++ l ++ after) = trim space l := by
  rw [trim_append_right hafter, trim_append_left hbefore]

/-- A line is its trimmed part, with white space around. -/
theorem exists_eq_trim (space : α → Bool) (l : List α) :
    ∃ before after, (∀ c ∈ before, space c = true) ∧ (∀ c ∈ after, space c = true) ∧
      l = before ++ trim space l ++ after := by
  refine ⟨l.takeWhile space, (l.dropWhile space).rtakeWhile space,
    fun c hc => List.mem_takeWhile_imp hc, fun c hc => List.mem_rtakeWhile_imp hc, ?_⟩
  rw [trim, List.append_assoc, List.rdropWhile_append_rtakeWhile,
    List.takeWhile_append_dropWhile]

@[simp] theorem trim_trim : trim space (trim space l) = trim space l := by
  obtain ⟨before, after, hbefore, hafter, hl⟩ := exists_eq_trim space l
  conv_rhs => rw [hl]
  rw [trim_append hbefore hafter]

/-- What begins with no white space begins so when trimmed. -/
theorem head?_trim_cons (hc : space c = false) : (trim space (c :: l)).head? = some c := by
  have hne : trim space (c :: l) ≠ [] := fun hnil => by
    rw [trim_eq_nil_iff.mp hnil c List.mem_cons_self] at hc
    cases hc
  rw [trim, List.dropWhile_cons_of_neg (by simp [hc])] at hne ⊢
  obtain ⟨t, ht⟩ := List.rdropWhile_prefix space (c :: l)
  obtain ⟨a, r, har⟩ := List.exists_cons_of_ne_nil hne
  rw [har] at ht ⊢
  rw [← (List.cons.inj ht).1, List.head?_cons]

/-- A trimmed line begins with no white space. -/
theorem space_head_trim (h : trim space l = c :: m) : space c = false := by
  rw [trim] at h
  rcases hdrop : l.dropWhile space with _ | ⟨a, r⟩
  · rw [hdrop] at h
    cases h
  · have ha : space a = false := by
      have := List.head_dropWhile_not space (by rw [hdrop]; exact List.cons_ne_nil _ _)
      simpa [hdrop] using this
    obtain ⟨t, ht⟩ := List.rdropWhile_prefix space (l.dropWhile space)
    rw [h, hdrop] at ht
    exact (List.cons.inj ht).1 ▸ ha

/-- A trimmed line ends with no white space. -/
theorem space_last_trim (h : trim space l = m ++ [c]) : space c = false := by
  have hne : (l.dropWhile space).rdropWhile space ≠ [] := by
    rw [show (l.dropWhile space).rdropWhile space = m ++ [c] from h]
    exact List.concat_ne_nil _ _
  have := List.rdropWhile_last_not space (l.dropWhile space) hne
  simp only [show (l.dropWhile space).rdropWhile space = m ++ [c] from h,
    List.getLast_append_singleton] at this
  simpa using this

/-! ### Words -/

@[simp] theorem words_nil : words space [] = [] := by
  simp [words, List.splitOnP_nil]

/-- White space separates words. -/
theorem words_append_cons (hc : space c = true) :
    words space (l ++ c :: m) = words space l ++ words space m := by
  rw [words, List.splitOnP_append_cons l m hc, List.filter_append, words, words]

theorem words_cons (hc : space c = true) : words space (c :: l) = words space l := by
  simpa using words_append_cons (l := []) (m := l) hc

theorem words_of_forall (hne : w ≠ []) (h : ∀ c ∈ w, space c = false) : words space w = [w] := by
  rw [words, List.splitOnP_eq_singleton h]
  simpa using hne

theorem words_append_left (h : ∀ c ∈ before, space c = true) :
    words space (before ++ l) = words space l := by
  induction before with
  | nil => rfl
  | cons c before ih =>
    obtain ⟨hc, hbefore⟩ := List.forall_mem_cons.mp h
    rw [List.cons_append, words_cons hc, ih hbefore]

theorem words_append_right (h : ∀ c ∈ after, space c = true) :
    words space (l ++ after) = words space l := by
  induction after generalizing l with
  | nil => rw [List.append_nil]
  | cons c after ih =>
    obtain ⟨hc, hafter⟩ := List.forall_mem_cons.mp h
    have hnil : words space after = [] := by simpa using ih (l := []) hafter
    rw [words_append_cons hc, hnil, List.append_nil]

/-- A word, and what is behind the white space after it. -/
theorem words_append_append {pad : List α} (hw : w ≠ []) (hword : ∀ c ∈ w, space c = false)
    (hpad : pad ≠ []) (hspace : ∀ c ∈ pad, space c = true) :
    words space (w ++ pad ++ m) = w :: words space m := by
  obtain ⟨c, pad, rfl⟩ := List.exists_cons_of_ne_nil hpad
  obtain ⟨hc, hspace⟩ := List.forall_mem_cons.mp hspace
  rw [List.append_assoc, List.cons_append, words_append_cons hc, words_of_forall hw hword,
    words_append_left hspace]
  rfl

@[simp] theorem words_trim (l : List α) : words space (trim space l) = words space l := by
  obtain ⟨before, after, hbefore, hafter, hl⟩ := exists_eq_trim space l
  conv_rhs => rw [hl, words_append_right hafter, words_append_left hbefore]

/-- **A trimmed line** is its first word and the words of what is behind it. -/
theorem words_eq_cons (htrim : trim space l = l) (hne : l ≠ []) :
    words space l = (splitFirst space l).1 ::
      words space (trim space ((splitFirst space l).2.getD [])) := by
  obtain ⟨c, r, rfl⟩ := List.exists_cons_of_ne_nil hne
  have hc := space_head_trim htrim
  have hfirst : (c :: r).takeWhile (!space ·) ≠ [] := by simp [hc]
  have hall : ∀ a ∈ (c :: r).takeWhile (!space ·), space a = false := fun a ha => by
    simpa using List.mem_takeWhile_imp ha
  have hl := List.takeWhile_append_dropWhile (p := (!space ·)) (l := c :: r)
  rw [splitFirst, words_trim]
  rcases hdrop : (c :: r).dropWhile (!space ·) with _ | ⟨s, rest⟩
  · rw [hdrop, List.append_nil] at hl
    rw [← hl] at hfirst hall ⊢
    simpa [hl] using words_of_forall hfirst hall
  · have hs : space s = true := by
      have := List.head_dropWhile_not (!space ·)
        (by rw [hdrop]; exact List.cons_ne_nil _ _)
      simpa [hdrop] using this
    rw [hdrop] at hl
    conv_lhs => rw [← hl, words_append_cons hs, words_of_forall hfirst hall]
    rfl

/-- Only white space has no words. -/
theorem words_eq_nil_iff : words space l = [] ↔ ∀ c ∈ l, space c = true := by
  constructor
  · intro h
    rw [← trim_eq_nil_iff]
    by_contra hne
    rw [← words_trim, words_eq_cons trim_trim hne] at h
    cases h
  · intro h
    simpa using words_append_right (l := []) h

/-- A trimmed line of one word is the word. -/
theorem eq_of_words_eq_singleton (htrim : trim space l = l) (h : words space l = [w]) : l = w := by
  have hne : l ≠ [] := by
    rintro rfl
    rw [words_nil] at h
    cases h
  rw [words_eq_cons htrim hne, List.cons.injEq, words_trim, words_eq_nil_iff] at h
  obtain ⟨hfirst, hrest⟩ := h
  have hl := List.takeWhile_append_dropWhile (p := (!space ·)) (l := l)
  rw [splitFirst] at hfirst hrest
  rcases hdrop : l.dropWhile (!space ·) with _ | ⟨s, rest⟩
  · rw [hdrop, List.append_nil] at hl
    exact hl.symm.trans hfirst
  · -- the line would end with white space
    rw [hdrop] at hl hrest
    have hs : space s = true := by
      have := List.head_dropWhile_not (!space ·) (by rw [hdrop]; exact List.cons_ne_nil _ _)
      simpa [hdrop] using this
    obtain ⟨pre, a, ha⟩ := (s :: rest).eq_nil_or_concat.resolve_left (List.cons_ne_nil _ _)
    rw [List.concat_eq_append] at ha
    have hmem : a ∈ s :: rest := ha ▸ List.mem_append_right _ List.mem_cons_self
    have hspace : space a = true := (List.mem_cons.mp hmem).elim (fun h => h ▸ hs) (hrest a)
    have hlast := space_last_trim (l := l) (c := a)
      (htrim.trans (by rw [← hl, ha, ← List.append_assoc]))
    rw [hlast] at hspace
    cases hspace

end Space

/-! ### Lines -/

section Lines

variable [DecidableEq α] (nl cr : α)

/-- A line without the `cr` before its end. -/
def stripEnd (l : List α) : List α := if l.getLast? = some cr then l.dropLast else l

/-- The lines of a text behind the characters `cur` of its first line. -/
def linesFrom (cur : List α) : List α → List (List α)
  | [] => if cur.isEmpty then [] else [cur]
  | c :: cs => if c = nl then stripEnd cr cur :: linesFrom [] cs else linesFrom (cur ++ [c]) cs

/-- The lines of a text. Each ends at `nl` or with the text, and a `cr` before `nl` belongs to the
end. -/
def lines (t : List α) : List (List α) := linesFrom nl cr [] t

/-- Lines one after the other, each with its end. -/
def unlines (ls : List (List α)) : List α := ls.flatMap (· ++ [nl])

variable {nl cr}

theorem linesFrom_append {cur l t : List α} (h : nl ∉ l) :
    linesFrom nl cr cur (l ++ nl :: t) = stripEnd cr (cur ++ l) :: lines nl cr t := by
  induction l generalizing cur with
  | nil => rw [List.nil_append, linesFrom, if_pos rfl, List.append_nil, lines]
  | cons c l ih =>
    obtain ⟨hc, hl⟩ := not_or.mp (mt List.mem_cons.mpr h)
    rw [List.cons_append, linesFrom, if_neg (Ne.symm hc), ih hl, List.append_assoc,
      List.singleton_append]

theorem linesFrom_of_notMem {cur l : List α} (h : nl ∉ l) (hne : cur ++ l ≠ []) :
    linesFrom nl cr cur l = [cur ++ l] := by
  induction l generalizing cur with
  | nil =>
    rw [List.append_nil] at hne ⊢
    rw [linesFrom, if_neg (by simpa using hne)]
  | cons c l ih =>
    obtain ⟨hc, hl⟩ := not_or.mp (mt List.mem_cons.mpr h)
    rw [linesFrom, if_neg (Ne.symm hc), ih hl (by simp), List.append_assoc,
      List.singleton_append]

/-- **Lines written are read back**, without the `cr` at their ends, and so is a last line that
does not end. -/
theorem lines_unlines_append {ls : List (List α)} {last : List α} (h : ∀ l ∈ ls, nl ∉ l)
    (hlast : nl ∉ last) :
    lines nl cr (unlines nl ls ++ last) =
      ls.map (stripEnd cr) ++ if last = [] then [] else [last] := by
  induction ls with
  | nil =>
    rw [unlines, List.flatMap_nil, List.nil_append, List.map_nil, List.nil_append, lines]
    split_ifs with hnil
    · rw [hnil, linesFrom]
      rfl
    · exact linesFrom_of_notMem hlast hnil
  | cons l ls ih =>
    obtain ⟨hl, hls⟩ := List.forall_mem_cons.mp h
    rw [unlines, List.flatMap_cons, List.append_assoc, List.append_assoc, List.singleton_append,
      lines, linesFrom_append hl, List.nil_append, List.map_cons, ← unlines, ih hls,
      List.cons_append]

theorem trim_stripEnd {space : α → Bool} (hcr : space cr = true) (l : List α) :
    trim space (stripEnd cr l) = trim space l := by
  rw [stripEnd]
  split_ifs with hlast
  · have hl : l.dropLast ++ [cr] = l := List.dropLast_append_getLast? cr hlast
    conv_rhs => rw [← hl]
    exact (trim_append_right (by simpa using hcr)).symm
  · rfl

end Lines

end Text

import DocExamples.Text.Pieces
/-!
Lines and their texts. Lines without line feeds are read back from their text, where they end in
line feeds or stand between them; and a text that ends in a line feed is the text of its lines.
-/
namespace DocExamples.Text

/-- The text of lines that each end in a line feed. -/
def unlines (ls : List (List Char)) : List Char := ls.flatMap (· ++ ['\n'])

@[simp]
theorem unlines_nil : unlines [] = [] := rfl

@[simp]
theorem unlines_cons (l : List Char) (ls : List (List Char)) :
    unlines (l :: ls) = l ++ '\n' :: unlines ls := by
  simp [unlines]

/-! ### Fields -/

section Fields

variable {separates : Char → Bool}

/-- A separator ends a field. -/
theorem fields_append_cons {c : Char} (separator : separates c = true) (front rest : List Char) :
    fields separates (front ++ c :: rest) = fields separates front ++ fields separates rest := by
  induction front with
  | nil => simp [fields, separator]
  | cons d front ih =>
    rw [List.cons_append, fields, fields, ih]
    by_cases here : separates d = true
    · rw [if_pos here, if_pos here, List.cons_append]
    · rw [if_neg here, if_neg here]
      cases pieces : fields separates front with
      | nil => exact absurd pieces (fields_ne_nil _ _)
      | cons first others => rfl

theorem fields_of_whole {text : List Char} (whole : ∀ c ∈ text, separates c = false) :
    fields separates text = [text] := by
  induction text with
  | nil => rfl
  | cons c rest ih =>
    obtain ⟨here, later⟩ := List.forall_mem_cons.mp whole
    rw [fields, if_neg (by simp [here]), ih later]
    rfl

theorem fields_append {front : List Char} (whole : ∀ c ∈ front, separates c = false) {c : Char}
    (separator : separates c = true) (rest : List Char) :
    fields separates (front ++ c :: rest) = front :: fields separates rest := by
  rw [fields_append_cons separator, fields_of_whole whole, List.singleton_append]

theorem mem_consHead {c : Char} {pieces : List (List Char)} {piece : List Char}
    (member : piece ∈ consHead c pieces) :
    piece ∈ pieces ∨ ∃ tail, piece = c :: tail ∧ (tail = [] ∨ tail ∈ pieces) := by
  cases pieces with
  | nil => exact .inr ⟨[], List.mem_singleton.mp member, .inl rfl⟩
  | cons first rest =>
    rcases List.mem_cons.mp member with same | inRest
    · exact .inr ⟨first, same, .inr List.mem_cons_self⟩
    · exact .inl (List.mem_cons_of_mem _ inRest)

/-- The pieces of a text are made of its characters that do not separate. -/
theorem mem_of_mem_fields {text piece : List Char} (member : piece ∈ fields separates text) :
    ∀ c ∈ piece, c ∈ text ∧ separates c = false := by
  induction text generalizing piece with
  | nil =>
    cases List.mem_singleton.mp member
    exact fun _ inside => nomatch inside
  | cons d rest ih =>
    have later {piece : List Char} (inRest : piece ∈ fields separates rest) :
        ∀ c ∈ piece, c ∈ d :: rest ∧ separates c = false := by
      intro c inside
      obtain ⟨found, other⟩ := ih inRest c inside
      exact ⟨List.mem_cons_of_mem _ found, other⟩
    rw [fields] at member
    by_cases separator : separates d = true
    · rw [if_pos separator] at member
      rcases List.mem_cons.mp member with rfl | inRest
      · exact fun _ inside => nomatch inside
      · exact later inRest
    · rw [if_neg separator] at member
      have other : separates d = false := by simpa using separator
      rcases mem_consHead member with inRest | ⟨tail, rfl, rfl | inRest⟩
      · exact later inRest
      · exact List.forall_mem_cons.mpr
          ⟨⟨List.mem_cons_self, other⟩, fun _ inside => nomatch inside⟩
      · exact List.forall_mem_cons.mpr ⟨⟨List.mem_cons_self, other⟩, later inRest⟩

theorem fields_concat {c : Char} (separator : separates c = true) (front : List Char) :
    fields separates (front ++ [c]) = fields separates front ++ [[]] :=
  fields_append_cons separator front []

end Fields

/-! ### Lines between line feeds -/

theorem join_cons {separator part : List Char} {parts : List (List Char)} (more : parts ≠ []) :
    join separator (part :: parts) = part ++ separator ++ join separator parts := by
  cases parts with
  | nil => exact absurd rfl more
  | cons next rest => rfl

theorem join_append_nil (ls : List (List Char)) : join ['\n'] (ls ++ [[]]) = unlines ls := by
  induction ls with
  | nil => rfl
  | cons l ls ih =>
    rw [List.cons_append, join_cons (by simp), ih, unlines_cons]
    simp

theorem join_consHead (c : Char) {pieces : List (List Char)} (some : pieces ≠ []) :
    join ['\n'] (consHead c pieces) = c :: join ['\n'] pieces := by
  cases pieces with
  | nil => exact absurd rfl some
  | cons first rest =>
    rw [consHead]
    cases rest with
    | nil => rfl
    | cons next rest => rfl

theorem join_fields (text : List Char) : join ['\n'] (fields (· == '\n') text) = text := by
  induction text with
  | nil => rfl
  | cons c rest ih =>
    rw [fields]
    by_cases ends : (c == '\n') = true
    · rw [if_pos ends, join_cons (fields_ne_nil _ _), ih, eq_of_beq ends]
      rfl
    · rw [if_neg ends, join_consHead c (fields_ne_nil _ _), ih]

/-- Texts without separators are read back from the text that joins them by one. -/
theorem fields_join_of_whole {separates : Char → Bool} {c : Char} (separator : separates c = true)
    {ls : List (List Char)} (some : ls ≠ []) (whole : ∀ l ∈ ls, ∀ d ∈ l, separates d = false) :
    fields separates (join [c] ls) = ls := by
  induction ls with
  | nil => exact absurd rfl some
  | cons l rest ih =>
    obtain ⟨here, later⟩ := List.forall_mem_cons.mp whole
    cases rest with
    | nil => exact fields_of_whole here
    | cons next rest =>
      rw [join_cons (List.cons_ne_nil _ _), List.append_assoc, List.singleton_append,
        fields_append here separator, ih (List.cons_ne_nil _ _) later]

theorem fields_join {ls : List (List Char)} (some : ls ≠ []) (whole : ∀ l ∈ ls, '\n' ∉ l) :
    fields (· == '\n') (join ['\n'] ls) = ls := by
  refine fields_join_of_whole (by simp) some fun l member c inside => ?_
  exact beq_false_of_ne fun same => whole l member (same ▸ inside)

theorem fields_unlines {ls : List (List Char)} (whole : ∀ l ∈ ls, '\n' ∉ l) :
    fields (· == '\n') (unlines ls) = ls ++ [[]] := by
  rw [← join_append_nil]
  apply fields_join (by simp)
  intro l member
  rcases List.mem_append.mp member with inside | last
  · exact whole l inside
  · cases List.mem_singleton.mp last
    exact List.not_mem_nil

/-! ### Lines -/

theorem dropReturn_of_other {l : List Char} (other : l.getLast? ≠ some '\r') : dropReturn l = l :=
  if_neg other

theorem lines_unlines {ls : List (List Char)} (whole : ∀ l ∈ ls, '\n' ∉ l)
    (plain : ∀ l ∈ ls, l.getLast? ≠ some '\r') : lines (unlines ls) = ls := by
  have kept : ls.map dropReturn = ls := by
    rw [List.map_congr_left fun l member => dropReturn_of_other (plain l member), List.map_id']
  rw [lines, fields_unlines whole, List.getLast?_append, List.dropLast_concat]
  exact kept

theorem subset_dropReturn (l : List Char) : dropReturn l ⊆ l := by
  rw [dropReturn]
  split
  · exact List.dropLast_subset l
  · exact List.Subset.refl l

theorem lines_cases (text : List Char) :
    lines text = (fields (· == '\n') text).dropLast.map dropReturn ∧
        (fields (· == '\n') text).getLast? = some [] ∨
      ∃ rest, (fields (· == '\n') text).getLast? = some rest ∧ rest ≠ [] ∧
        lines text = (fields (· == '\n') text).dropLast.map dropReturn ++ [rest] := by
  rw [lines]
  cases last : (fields (· == '\n') text).getLast? with
  | none => exact absurd (List.getLast?_eq_none_iff.mp last) (fields_ne_nil _ _)
  | some rest =>
    cases rest with
    | nil => exact .inl ⟨rfl, rfl⟩
    | cons c rest => exact .inr ⟨c :: rest, rfl, List.cons_ne_nil _ _, rfl⟩

theorem notMem_of_mem_lines {text l : List Char} (member : l ∈ lines text) : '\n' ∉ l := by
  have whole {piece : List Char} (inside : piece ∈ fields (· == '\n') text) : '\n' ∉ piece := by
    intro feed
    exact absurd (mem_of_mem_fields inside _ feed).2 (by simp)
  have ended {l : List Char}
      (inside : l ∈ (fields (· == '\n') text).dropLast.map dropReturn) : '\n' ∉ l := by
    obtain ⟨piece, inFields, rfl⟩ := List.mem_map.mp inside
    exact fun feed => whole (List.dropLast_subset _ inFields) (subset_dropReturn _ feed)
  rcases lines_cases text with ⟨same, -⟩ | ⟨rest, last, -, same⟩
  · exact ended (same ▸ member)
  · rw [same, List.mem_append, List.mem_singleton] at member
    rcases member with inside | rfl
    · exact ended inside
    · exact whole (List.mem_of_getLast? last)

/-- A text that ends in a line feed is the text of its lines. -/
theorem unlines_lines {text : List Char} (ends : text = [] ∨ text.getLast? = some '\n')
    (plain : '\r' ∉ text) : unlines (lines text) = text := by
  rcases ends with rfl | last
  · rfl
  · obtain ⟨front, rfl⟩ := List.getLast?_eq_some_iff.mp last
    have pieces : fields (· == '\n') (front ++ ['\n']) = fields (· == '\n') front ++ [[]] :=
      fields_concat (by simp) front
    have kept : (fields (· == '\n') front).map dropReturn = fields (· == '\n') front := by
      rw [List.map_congr_left, List.map_id']
      intro piece member
      apply dropReturn_of_other
      intro atEnd
      apply plain
      have inFront := (mem_of_mem_fields member _ (List.mem_of_getLast? atEnd)).1
      exact List.mem_append_left _ inFront
    have same : lines (front ++ ['\n']) = fields (· == '\n') front := by
      rw [lines, pieces, List.getLast?_append, List.dropLast_concat]
      exact kept
    rw [same, ← join_append_nil, ← pieces, join_fields]

end DocExamples.Text

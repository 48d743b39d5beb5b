import KleeDeps.Postprocess.LatexTable
import KleeDeps.Postprocess.SummaryTables

/-!
# The printed tables of the reproduction summary

The two tables of a selection are printed as `NiceTabular` environments: a line of column letters,
a header line and one line per row, the cells escaped and joined by `&`.

- `selectedRowsToLatex`, `selectedByLibraryRowsToLatex`: the printers;
- `readLine`: a reader of one line;
- `read_tableLine`: a printed line is read back, whatever its cells are;
- `tables_read_back`: **both tables are read back cell by cell, and have a letter for each column**.
-/

namespace KleeDeps.Postprocess

open Py

namespace SummaryTables

open LatexTable Selection

/-! ## The printers -/

/-- The line of a row. -/
def tableLine (cells : List Text) : Text :=
  "    ".toList ++ join " & ".toList (cells.map escapeLatex) ++ " \\\\".toList

/-- The lines of a table. -/
def tableLines (alignment : Text) (header : List Text) (records : List (List Text)) : List Text :=
  ["\\begin\x7bNiceTabular\x7d\x7b".toList ++ alignment ++ ['\x7d'],
    "    \\toprule".toList, tableLine header, "    \\midrule".toList] ++
    records.map tableLine ++
    ["    \\bottomrule".toList, "\\end\x7bNiceTabular\x7d".toList]

/-- `"\n".join(lines) + "\n"` -/
def joinLines (lines : List Text) : Text := join ['\n'] lines ++ ['\n']

/-- The column letters of the best-of table. -/
def selectedAlignment (selectedRows : List SelectedRow) : Text :=
  'l' :: List.replicate ((nonzeroStatusColumns selectedRows).length + 1) 'r'

/-- `_selected_rows_to_latex` -/
def selectedRowsToLatex (selectedRows : List SelectedRow) : Text :=
  joinLines (tableLines (selectedAlignment selectedRows) (selectedFieldnames selectedRows)
    (selectedRows.map (selectedRecord selectedRows)))

/-- The letters of the groups, a bar between two of them. -/
def alignGroups : List Nat → Text
  | [] => []
  | [groupSize] => List.replicate groupSize 'r'
  | groupSize :: rest => List.replicate groupSize 'r' ++ '|' :: alignGroups rest

/-- `_selected_by_library_alignment` -/
def selectedByLibraryAlignment (groupSizes : List Nat) : Text :=
  'l' :: alignGroups (groupSizes.filter (0 < ·))

/-- The cells of a row of the table by library. -/
def byLibraryRecord (fieldnames : List Text) (row : Dict Text Text) : List Text :=
  field row "benchmark".toList :: fieldnames.tail.map (field row)

/-- `_selected_by_library_rows_to_latex` -/
def selectedByLibraryRowsToLatex (table : ByLibraryTable) : Text :=
  joinLines (tableLines (selectedByLibraryAlignment table.groupSizes) table.latexFieldnames
    (table.rows.map (byLibraryRecord table.latexFieldnames)))

/-! ## A reader -/

/-- The next character of a line, or `none` for a separator, and the rest. -/
def nextToken : Text → Option (Option Char × Text)
  | [] => none
  | c :: rest =>
    if c = '&' then some (none, rest)
    else
      match replacements.find? fun r => r.2.isPrefixOf (c :: rest) with
      | some r => some (some r.1, (c :: rest).drop r.2.length)
      | none => if c = '\\' then none else some (some c, rest)

/-- The characters and separators of a text, at most so many. -/
def tokens : Nat → Text → Option (List (Option Char))
  | _, [] => some []
  | 0, _ :: _ => none
  | n + 1, c :: text =>
    match nextToken (c :: text) with
    | none => none
    | some (token, rest) => (tokens n rest).map (token :: ·)

/-- The cells of a line. -/
def readLine (line : Text) : Option (List Text) :=
  let body := (line.drop 3).dropLast.dropLast
  (tokens body.length body).map fun ts =>
    (ts.splitOn none).map fun cell => (cell.filterMap id).tail.dropLast

/-- The lines that have cells. -/
def isRow (line : Text) : Bool := " \\\\".toList.isSuffixOf line

/-- The cells of a table, the header first. -/
def readTable (text : Text) : Option (List (List Text)) :=
  ((text.splitOn '\n').filter isRow).mapM readLine

/-- The columns that an alignment declares. -/
def columnCount (alignment : Text) : Nat := alignment.countP (· ≠ '|')

/-! ### Reading what was escaped -/

/-- The text that is printed for a character. -/
def piece (c : Char) : Text := (replacements.lookup c).getD [c]

theorem nextToken_piece (c : Char) (rest : Text) :
    nextToken (piece c ++ rest) = some (some c, rest) := by
  by_cases hspecial : c ∈ replacements.map Prod.fst
  · have hcases : c = '\\' ∨ c = '&' ∨ c = '%' ∨ c = '$' ∨ c = '#' ∨ c = '_' ∨ c = '\x7b' ∨
        c = '\x7d' ∨ c = '~' ∨ c = '^' := by simpa [replacements] using hspecial
    rcases hcases with rfl | rfl | rfl | rfl | rfl | rfl | rfl | rfl | rfl | rfl <;> rfl
  · have hne : ∀ d ∈ replacements.map Prod.fst, c ≠ d := fun d hd heq => hspecial (heq ▸ hd)
    have hlookup : replacements.lookup c = none := by
      rw [List.lookup_eq_none_iff]
      intro r hr
      exact bne_iff_ne.mpr (hne r.1 (List.mem_map_of_mem hr))
    have hbackslash : c ≠ '\\' := hne _ (by decide)
    -- every replacement starts with a backslash
    have hfind : (replacements.find? fun r => r.2.isPrefixOf (c :: rest)) = none := by
      rw [List.find?_eq_none]
      intro r hr hprefix
      have hhead : r.2.head? = some '\\' :=
        (by decide : ∀ r ∈ replacements, r.2.head? = some '\\') r hr
      obtain ⟨tail, htail⟩ := List.head?_eq_some_iff.mp hhead
      rw [htail, List.isPrefixOf_cons_cons, Bool.and_eq_true, beq_iff_eq] at hprefix
      exact hbackslash hprefix.1.symm
    rw [piece, hlookup, Option.getD_none, List.singleton_append, nextToken,
      if_neg (hne _ (by decide)), hfind]
    simp only [if_neg hbackslash]

theorem piece_ne_nil (c : Char) : piece c ≠ [] := by
  rw [piece]
  cases hlookup : replacements.lookup c with
  | none => exact List.cons_ne_nil _ _
  | some replacement =>
    obtain ⟨before, after, hsplit, -⟩ := List.lookup_eq_some_iff.mp hlookup
    have hmem : (c, replacement) ∈ replacements := by
      rw [hsplit]
      exact List.mem_append_right _ List.mem_cons_self
    exact (by decide : ∀ r ∈ replacements, r.2 ≠ []) _ hmem

theorem tokens_step {n : Nat} {text rest : Text} {token : Option Char} (hne : text ≠ [])
    (h : nextToken text = some (token, rest)) :
    tokens (n + 1) text = (tokens n rest).map (token :: ·) := by
  obtain ⟨c, tail, rfl⟩ := List.exists_cons_of_ne_nil hne
  rw [tokens, h]

/-- An escaped text is read character by character. -/
theorem tokens_escapeLatex (s rest : Text) (n : Nat) :
    tokens (n + s.length) (escapeLatex s ++ rest) =
      (tokens n rest).map (s.map some ++ ·) := by
  induction s with
  | nil => exact Option.map_id_apply.symm
  | cons c s ih =>
    have hne : piece c ++ (escapeLatex s ++ rest) ≠ [] :=
      List.append_ne_nil_of_left_ne_nil (piece_ne_nil c) _
    rw [escapeLatex, List.flatMap_cons, List.append_assoc]
    show tokens (n + s.length + 1) (piece c ++ (escapeLatex s ++ rest)) = _
    rw [tokens_step hne (nextToken_piece c _), ih, Option.map_map]
    rfl

/-- More steps than needed change nothing. -/
theorem tokens_mono {n m : Nat} {text : Text} {ts : List (Option Char)} (hle : n ≤ m)
    (h : tokens n text = some ts) : tokens m text = some ts := by
  induction n generalizing m text ts with
  | zero =>
    cases text with
    | nil => cases m <;> exact h
    | cons c text => cases h
  | succ n ih =>
    obtain ⟨m, rfl⟩ : ∃ k, m = k + 1 := ⟨m - 1, by omega⟩
    cases text with
    | nil => exact h
    | cons c text =>
      rw [tokens] at h ⊢
      cases hnext : nextToken (c :: text) with
      | none => rw [hnext] at h; cases h
      | some next =>
        rw [hnext] at h
        obtain ⟨more, hmore, rfl⟩ := Option.map_eq_some_iff.mp h
        simp only [ih (Nat.le_of_succ_le_succ hle) hmore, Option.map_some]

/-- The characters of escaped texts, with the separators between them. -/
theorem exists_tokens_join {ss : List Text} (hne : ss ≠ []) :
    ∃ n, tokens n (join ['&'] (ss.map escapeLatex)) =
      some ([none].intercalate (ss.map (List.map some))) := by
  induction ss with
  | nil => exact absurd rfl hne
  | cons s ss ih =>
    cases ss with
    | nil =>
      refine ⟨0 + s.length, ?_⟩
      have hread := tokens_escapeLatex s [] 0
      rw [List.append_nil] at hread
      simpa [join, tokens] using hread
    | cons other ss =>
      obtain ⟨n, hn⟩ := ih (List.cons_ne_nil _ _)
      refine ⟨n + 1 + s.length, ?_⟩
      rw [List.map_cons, List.map_cons, join, List.intercalate_cons_cons, ← List.map_cons,
        List.append_assoc, tokens_escapeLatex]
      have hseparator : tokens (n + 1) (['&'] ++ join ['&'] ((other :: ss).map escapeLatex)) =
          some (none :: [none].intercalate ((other :: ss).map (List.map some))) := by
        refine (tokens_step (List.cons_ne_nil _ _) rfl).trans ?_
        exact congrArg (Option.map (none :: ·)) hn
      rw [join] at hseparator
      rw [hseparator, Option.map_some, List.map_cons (f := List.map some) (a := s),
        List.map_cons (f := List.map some) (a := other), List.intercalate_cons_cons,
        List.append_assoc]
      rfl

/-- A token takes at least one character. -/
theorem nextToken_length {text rest : Text} {token : Option Char}
    (h : nextToken text = some (token, rest)) : rest.length < text.length := by
  cases text with
  | nil => cases h
  | cons c text =>
    rw [nextToken] at h
    split at h
    · obtain ⟨-, rfl⟩ := Prod.mk.inj (Option.some.inj h)
      exact Nat.lt_succ_self _
    · split at h
      · next r hfind =>
        obtain ⟨-, rfl⟩ := Prod.mk.inj (Option.some.inj h)
        have hpos : 0 < r.2.length := List.length_pos_iff.mpr
          ((by decide : ∀ r ∈ replacements, r.2 ≠ []) r (List.mem_of_find?_eq_some hfind))
        rw [List.length_drop, List.length_cons]
        omega
      · split at h
        · cases h
        · obtain ⟨-, rfl⟩ := Prod.mk.inj (Option.some.inj h)
          exact Nat.lt_succ_self _

/-- As many steps as there are characters are enough. -/
theorem tokens_length {n : Nat} {text : Text} {ts : List (Option Char)}
    (h : tokens n text = some ts) : tokens text.length text = some ts := by
  induction n generalizing text ts with
  | zero =>
    cases text with
    | nil => exact h
    | cons c text => cases h
  | succ n ih =>
    cases text with
    | nil => exact h
    | cons c text =>
      rw [tokens] at h
      cases hnext : nextToken (c :: text) with
      | none =>
        rw [hnext] at h
        cases h
      | some next =>
        rw [hnext] at h
        obtain ⟨more, hmore, rfl⟩ := Option.map_eq_some_iff.mp h
        have hshort : next.2.length ≤ text.length := Nat.le_of_lt_succ (nextToken_length hnext)
        rw [List.length_cons, tokens_step (List.cons_ne_nil _ _) hnext,
          tokens_mono hshort (ih hmore), Option.map_some]

/-! ### Reading a line -/

/-- A cell with the blanks around it. -/
def padded (cell : Text) : Text := ' ' :: (cell ++ [' '])

theorem escapeLatex_append (s t : Text) : escapeLatex (s ++ t) = escapeLatex s ++ escapeLatex t :=
  List.flatMap_append

theorem escapeLatex_padded (cell : Text) : escapeLatex (padded cell) = padded (escapeLatex cell) := by
  show escapeLatex ([' '] ++ (cell ++ [' '])) = _
  rw [escapeLatex_append, escapeLatex_append]
  rfl

/-- The blanks around the separators belong to the cells. -/
theorem padded_join {cells : List Text} (hne : cells ≠ []) :
    padded (join " & ".toList cells) = join ['&'] (cells.map padded) := by
  induction cells with
  | nil => exact absurd rfl hne
  | cons cell cells ih =>
    cases cells with
    | nil => simp [join]
    | cons other cells =>
      have hrest := ih (List.cons_ne_nil _ _)
      have hright : join ['&'] ((cell :: other :: cells).map padded) =
          padded cell ++ ['&'] ++ join ['&'] ((other :: cells).map padded) := by
        rw [List.map_cons, List.map_cons, join, join, List.intercalate_cons_cons]
      rw [hright, ← hrest, join, join, List.intercalate_cons_cons]
      simp [padded]

/-- A printed line is read back. -/
theorem read_tableLine {cells : List Text} (hne : cells ≠ []) :
    readLine (tableLine cells) = some cells := by
  have hbody : ((tableLine cells).drop 3).dropLast.dropLast =
      join ['&'] ((cells.map padded).map escapeLatex) := by
    have hcells : cells.map escapeLatex ≠ [] := by simpa using hne
    have hpadded := padded_join hcells
    have hline : tableLine cells = "   ".toList ++
        (padded (join " & ".toList (cells.map escapeLatex)) ++ ['\\', '\\']) := by
      simp [tableLine, padded]
    rw [hline, List.drop_left' (by rfl), hpadded, List.map_map, List.map_map]
    have hswap : (cells.map (padded ∘ escapeLatex)) = cells.map (escapeLatex ∘ padded) :=
      List.map_congr_left fun cell _ => (escapeLatex_padded cell).symm
    rw [hswap]
    simp
  have hpaddedNe : cells.map padded ≠ [] := by simpa using hne
  obtain ⟨n, hn⟩ := exists_tokens_join hpaddedNe
  rw [readLine, hbody, tokens_length hn, Option.map_some, List.splitOn_intercalate none ?_
    (by simpa using hne)]
  · refine congrArg some ?_
    rw [List.map_map, List.map_map]
    refine (List.map_congr_left fun cell _ => ?_).trans (List.map_id cells)
    simp [padded]
  · intro cell hcell
    obtain ⟨text, -, rfl⟩ := List.mem_map.mp hcell
    simp

/-! ### Reading a table -/

theorem join_concat {sep last : Text} {parts : List Text} (hne : parts ≠ []) :
    join sep (parts ++ [last]) = join sep parts ++ sep ++ last := by
  induction parts with
  | nil => exact absurd rfl hne
  | cons part parts ih =>
    cases parts with
    | nil => simp [join]
    | cons other parts =>
      have hrest := ih (List.cons_ne_nil _ _)
      rw [join, join] at hrest
      rw [List.cons_append, List.cons_append, join, join, List.intercalate_cons_cons,
        List.intercalate_cons_cons, ← List.cons_append, hrest, List.append_assoc, List.append_assoc,
        List.append_assoc, List.append_assoc, List.append_assoc]

/-- A text of whole lines falls into them, and an empty rest. -/
theorem splitOn_joinLines {lines : List Text} (hne : lines ≠ []) (h : ∀ line ∈ lines, '\n' ∉ line) :
    (joinLines lines).splitOn '\n' = lines ++ [[]] := by
  have hjoin : joinLines lines = join ['\n'] (lines ++ [[]]) := by
    rw [join_concat hne, List.append_nil, joinLines]
  rw [hjoin]
  refine List.splitOn_intercalate '\n' (fun line hline => ?_) (by simp)
  rcases List.mem_append.mp hline with hline | hline
  · exact h line hline
  · rw [List.mem_singleton.mp hline]
    exact List.not_mem_nil

theorem notMem_piece {c : Char} (h : c ≠ '\n') : '\n' ∉ piece c := by
  rw [piece]
  cases hlookup : replacements.lookup c with
  | none => simpa using h.symm
  | some replacement =>
    obtain ⟨before, after, hsplit, -⟩ := List.lookup_eq_some_iff.mp hlookup
    have hmem : (c, replacement) ∈ replacements := by
      rw [hsplit]
      exact List.mem_append_right _ List.mem_cons_self
    exact (by decide : ∀ r ∈ replacements, '\n' ∉ r.2) _ hmem

/-- Escaping breaks no line. -/
theorem notMem_escapeLatex {s : Text} (h : '\n' ∉ s) : '\n' ∉ escapeLatex s := by
  intro hmem
  obtain ⟨c, hc, hin⟩ := List.mem_flatMap.mp hmem
  exact notMem_piece (fun heq => h (heq ▸ hc)) hin

theorem notMem_tableLine {cells : List Text} (h : ∀ cell ∈ cells, '\n' ∉ cell) :
    '\n' ∉ tableLine cells := by
  intro hmem
  rw [tableLine, List.append_assoc] at hmem
  rcases List.mem_append.mp hmem with hmem | hmem
  · exact absurd hmem (by decide)
  · rcases List.mem_append.mp hmem with hmem | hmem
    · rcases mem_join hmem with hmem | ⟨cell, hcell, hmem⟩
      · exact absurd hmem (by decide)
      · obtain ⟨text, htext, rfl⟩ := List.mem_map.mp hcell
        exact notMem_escapeLatex (h text htext) hmem
    · exact absurd hmem (by decide)

theorem isRow_tableLine (cells : List Text) : isRow (tableLine cells) = true :=
  List.isSuffixOf_iff_suffix.mpr (List.suffix_append _ _)

/-- What ends otherwise is no row. -/
theorem isRow_eq_false {line : Text} {c : Char} (h : line.getLast? = some c) (hc : c ≠ '\\') :
    isRow line = false := by
  refine Bool.eq_false_iff.mpr fun hrow => ?_
  obtain ⟨before, rfl⟩ := List.isSuffixOf_iff_suffix.mp hrow
  rw [List.getLast?_append] at h
  exact hc (Option.some.inj h).symm

/-- A printed table is read back, cell by cell. -/
theorem read_tableLines {alignment : Text} {header : List Text} {records : List (List Text)}
    (halignment : '\n' ∉ alignment) (hlines : ∀ cells ∈ header :: records, cells ≠ [] ∧
      ∀ cell ∈ cells, '\n' ∉ cell) :
    readTable (joinLines (tableLines alignment header records)) = some (header :: records) := by
  have hfree : ∀ line ∈ tableLines alignment header records, '\n' ∉ line := by
    intro line hline
    simp only [tableLines, List.mem_append, List.mem_cons, List.mem_map, List.not_mem_nil,
      or_false] at hline
    rcases hline with ((rfl | rfl | rfl | rfl) | ⟨cells, hcells, rfl⟩) | rfl | rfl
    · intro hmem
      rw [List.append_assoc] at hmem
      rcases List.mem_append.mp hmem with hmem | hmem
      · exact absurd hmem (by decide)
      · rcases List.mem_append.mp hmem with hmem | hmem
        · exact halignment hmem
        · exact absurd hmem (by decide)
    · decide
    · exact notMem_tableLine (hlines header List.mem_cons_self).2
    · decide
    · exact notMem_tableLine (hlines cells (List.mem_cons_of_mem _ hcells)).2
    · decide
    · decide
  have hrows : (tableLines alignment header records ++ [[]]).filter isRow =
      (header :: records).map tableLine := by
    have hbegin : isRow ("\\begin\x7bNiceTabular\x7d\x7b".toList ++ alignment ++ ['\x7d']) = false :=
      isRow_eq_false (List.getLast?_concat) (by decide)
    have hrecords : (records.map tableLine).filter isRow = records.map tableLine := by
      refine List.filter_eq_self.mpr fun line hline => ?_
      obtain ⟨cells, -, rfl⟩ := List.mem_map.mp hline
      exact isRow_tableLine cells
    have hfixed : ∀ line ∈ ["    \\toprule".toList, "    \\midrule".toList,
        "    \\bottomrule".toList, "\\end\x7bNiceTabular\x7d".toList, []], isRow line = false := by
      decide
    simp only [List.forall_mem_cons] at hfixed
    obtain ⟨htop, hmid, hbottom, hend, hempty, -⟩ := hfixed
    rw [tableLines, List.filter_append, List.filter_append, List.filter_append, hrecords]
    simp only [List.filter_cons, hbegin, isRow_tableLine, htop, hmid, hbottom, hend, hempty, if_true,
      Bool.false_eq_true, if_false, List.filter_nil, List.append_nil, List.map_cons,
      List.cons_append, List.nil_append]
  have hne : tableLines alignment header records ≠ [] := List.cons_ne_nil _ _
  rw [readTable, splitOn_joinLines hne hfree, hrows]
  have hread : ∀ lines : List (List Text), (∀ cells ∈ lines, cells ≠ []) →
      (lines.map tableLine).mapM readLine = some lines := by
    intro lines hne
    induction lines with
    | nil => rfl
    | cons cells lines ih =>
      rw [List.map_cons, List.mapM_cons, read_tableLine (hne cells List.mem_cons_self),
        ih fun other hother => hne other (List.mem_cons_of_mem _ hother)]
      rfl
  exact hread _ fun cells hcells => (hlines cells hcells).1

/-! ### The two tables -/

theorem notMem_decimal (n : Nat) : '\n' ∉ decimal n := fun hmem =>
  (mem_toDigits_spec (by decide) (by decide) hmem).2.2 (by decide)

theorem notMem_bucketName (status : Bucket) : '\n' ∉ bucketName status := by
  cases status with
  | status s => cases s <;> decide
  | inconsistent => decide

theorem notMem_append {s t : Text} (hs : '\n' ∉ s) (ht : '\n' ∉ t) : '\n' ∉ s ++ t := fun hmem =>
  (List.mem_append.mp hmem).elim hs ht

/-- A label is a display label, with a number in brackets where it is taken. -/
theorem notMem_labelOf {selected : List (Selected SummaryLine)}
    (h : ∀ s ∈ selected, '\n' ∉ s.displayLabel) (s : Selected SummaryLine) :
    '\n' ∉ labelOf (buildUniqueDisplayLabels selected) s := by
  have hinv := Sequence.foldl_induction (f := Labelling.add) (s := ⟨.empty, .empty⟩)
    (fun done labelling => (∀ s ∈ done, '\n' ∉ s.displayLabel) →
      ∀ column label, labelling.renameMap.get? column = some label → '\n' ∉ label)
    [] (fun _ _ _ hget => by cases hget) ?_ selected
  · rw [List.nil_append] at hinv
    rw [labelOf, buildUniqueDisplayLabels]
    cases hget : ((selected.foldl Labelling.add ⟨.empty, .empty⟩).renameMap).get? s.sourceColumn with
    | none => exact List.not_mem_nil
    | some label => exact hinv h _ _ hget
  · intro done next labelling ih hdone column label hget
    have hnext : '\n' ∉ next.displayLabel :=
      hdone next (List.mem_append_right _ (List.mem_singleton_self next))
    rw [Labelling.add, Dict.get?_set] at hget
    split at hget
    · obtain rfl := Option.some.inj hget
      split
      · exact hnext
      · exact notMem_append (notMem_append (notMem_append hnext (by decide)) (notMem_decimal _))
          (by decide)
    · exact ih (fun s hs => hdone s (List.mem_append_left _ hs)) column label hget

theorem columnCount_cons {c : Char} (hc : c ≠ '|') (alignment : Text) :
    columnCount (c :: alignment) = columnCount alignment + 1 :=
  List.countP_cons_of_pos (decide_eq_true hc)

theorem columnCount_replicate (n : Nat) : columnCount (List.replicate n 'r') = n := by
  rw [columnCount, List.countP_replicate, if_pos (by decide)]

theorem columnCount_append (s t : Text) : columnCount (s ++ t) = columnCount s + columnCount t :=
  List.countP_append

/-- The bars between the groups declare no column. -/
theorem columnCount_alignGroups (sizes : List Nat) : columnCount (alignGroups sizes) = sizes.sum := by
  fun_induction alignGroups sizes with
  | case1 => rfl
  | case2 groupSize => rw [columnCount_replicate, List.sum_singleton]
  | case3 groupSize rest hrest ih =>
    have hbar : columnCount ('|' :: alignGroups rest) = columnCount (alignGroups rest) :=
      List.countP_cons_of_neg (by decide)
    rw [columnCount_append, columnCount_replicate, hbar, ih, List.sum_cons]

theorem sum_filter_pos (sizes : List Nat) : (sizes.filter (0 < ·)).sum = sizes.sum := by
  induction sizes with
  | nil => rfl
  | cons groupSize rest ih =>
    rw [List.filter_cons]
    split
    · rw [List.sum_cons, List.sum_cons, ih]
    · next hzero =>
      have hempty : groupSize = 0 := Nat.eq_zero_of_not_pos fun hpos => hzero (decide_eq_true hpos)
      rw [ih, List.sum_cons, hempty, Nat.zero_add]

theorem notMem_alignGroups (sizes : List Nat) : '\n' ∉ alignGroups sizes := by
  have hgroup : ∀ n, '\n' ∉ List.replicate n 'r' := fun n hmem =>
    absurd (List.eq_of_mem_replicate hmem) (by decide)
  fun_induction alignGroups sizes with
  | case1 => exact List.not_mem_nil
  | case2 groupSize => exact hgroup groupSize
  | case3 groupSize rest hrest ih =>
    exact notMem_append (hgroup groupSize) (List.not_mem_cons_of_ne_of_not_mem (by decide) ih)

/-- The sizes of the groups are those of the selected configurations. -/
theorem sum_groupSizes (selected : List (Selected SummaryLine)) :
    (selectedConfigurationGroupOrder selected).2.sum =
      (selectedConfigurationGroupOrder selected).1.length := by
  rw [selectedConfigurationGroupOrder]
  dsimp only
  rw [List.length_flatMap]

/-- What the table by library says of a target: its name, and the successes of each configuration,
branches before memory accesses. -/
def successRecord (summary : Dict Text ConfigurationCounts) (ordered : List (Selected SummaryLine))
    (p : Text × Text) : List Text :=
  benchmarkLabel p.1 p.2 :: ordered.map fun s =>
    decimal (successes summary s.sourceColumn p .branch) ++
      '/' :: decimal (successes summary s.sourceColumn p .memory)

section ReadBack

variable {summary : Dict Text ConfigurationCounts} {selected : List (Selected SummaryLine)}

/-- The cells of a row of the table by library are those of its target. -/
theorem byLibraryRecord_targetRow {labelMap : Dict Text Text}
    {ordered : List (Selected SummaryLine)} (hapart : LabelsApart labelMap ordered)
    (p : Text × Text) :
    byLibraryRecord ("benchmark".toList :: ordered.map (labelOf labelMap))
        (targetRow summary labelMap ordered p) = successRecord summary ordered p := by
  have hfield : ∀ item ∈ [("library".toList, p.1), ("target".toList, p.2),
      ("benchmark".toList, benchmarkLabel p.1 p.2)] ++
        ordered.flatMap (configurationCells summary labelMap p),
      field (targetRow summary labelMap ordered p) item.1 = item.2 := by
    intro item hitem
    rw [field, get?_targetRow hapart p hitem, Option.getD_some]
  rw [byLibraryRecord, successRecord, List.tail_cons, List.map_map]
  congr 1
  · exact hfield ("benchmark".toList, benchmarkLabel p.1 p.2) (by simp)
  · refine List.map_congr_left fun s hs => ?_
    refine hfield (labelOf labelMap s, _) (List.mem_append_right _ (List.mem_flatMap.mpr ⟨s, hs, ?_⟩))
    exact List.mem_cons_of_mem _ (List.mem_cons_of_mem _ List.mem_cons_self)

theorem notMem_benchmarkLabel {p : Text × Text} (hlibrary : '\n' ∉ p.1) (htarget : '\n' ∉ p.2) :
    '\n' ∉ benchmarkLabel p.1 p.2 := by
  rw [benchmarkLabel]
  split
  · exact hlibrary
  · exact notMem_append hlibrary (List.not_mem_cons_of_ne_of_not_mem (by decide) htarget)

/-- A printed table is read back, and the alignment declares a column for each cell of a line. -/
def Printed (alignment text : Text) (lines : List (List Text)) : Prop :=
  readTable text = some lines ∧ ∀ cells ∈ lines, cells.length = columnCount alignment

/-- The best-of table is read back. -/
theorem printed_selected (hlabels : ∀ s ∈ selected, '\n' ∉ s.displayLabel) :
    let rows := selectedRowsFromConfigurations selected
    Printed (selectedAlignment rows) (selectedRowsToLatex rows)
      (selectedFieldnames rows :: rows.map (selectedRecord rows)) := by
  intro rows
  have hwidth : columnCount (selectedAlignment rows) = (nonzeroStatusColumns rows).length + 2 := by
    rw [selectedAlignment, columnCount_cons (by decide), columnCount_replicate]
  have halignment : '\n' ∉ selectedAlignment rows :=
    List.not_mem_cons_of_ne_of_not_mem (by decide) fun hmem =>
      absurd (List.eq_of_mem_replicate hmem) (by decide)
  refine ⟨read_tableLines halignment fun cells hcells => ?_, fun cells hcells => ?_⟩
  · rcases List.mem_cons.mp hcells with rfl | hcells
    · refine ⟨List.cons_ne_nil _ _, fun cell hcell => ?_⟩
      simp only [selectedFieldnames, List.mem_cons, List.mem_append, List.mem_map,
        List.not_mem_nil, or_false] at hcell
      rcases hcell with rfl | ⟨status, -, rfl⟩ | rfl
      · decide
      · exact notMem_bucketName status
      · decide
    · obtain ⟨row, hrow, rfl⟩ := List.mem_map.mp hcells
      obtain ⟨s, hs, rfl⟩ := List.mem_map.mp hrow
      refine ⟨List.cons_ne_nil _ _, fun cell hcell => ?_⟩
      simp only [selectedRecord, List.mem_cons, List.mem_append, List.mem_map,
        List.not_mem_nil, or_false] at hcell
      rcases hcell with rfl | ⟨status, -, rfl⟩ | rfl
      · exact hlabels s hs
      · exact notMem_decimal _
      · exact notMem_decimal _
  · rw [hwidth]
    rcases List.mem_cons.mp hcells with rfl | hcells
    · simp [selectedFieldnames]
    · obtain ⟨row, -, rfl⟩ := List.mem_map.mp hcells
      simp [selectedRecord]

/-- The table by library is read back. -/
theorem printed_selectedByLibrary (hlabels : ∀ s ∈ selected, '\n' ∉ s.displayLabel)
    (htargets : ∀ s ∈ selected, ∀ p ∈ observedTargets summary s.sourceColumn,
      '\n' ∉ p.1 ∧ '\n' ∉ p.2)
    (hapart : LabelsApart (buildUniqueDisplayLabels selected) selected) {table : ByLibraryTable}
    (htable : selectedByLibraryRows summary selected = .ok (some table)) :
    let ordered := (selectedConfigurationGroupOrder selected).1
    Printed (selectedByLibraryAlignment table.groupSizes) (selectedByLibraryRowsToLatex table)
      (("benchmark".toList :: ordered.map (labelOf (buildUniqueDisplayLabels selected))) ::
        (libraryTargets summary ordered).map (successRecord summary ordered)) := by
  intro ordered
  have hperm : ordered.Perm selected := groupOrder_perm selected
  have hsizes := sum_groupSizes selected
  rw [selectedByLibraryRows] at htable
  split at htable
  · cases htable
  · dsimp only at htable
    split at htable
    · cases htable
    · obtain rfl := Option.some.inj (Except.ok.inj htable)
      have hrecords : ((libraryTargets summary ordered).map
          (targetRow summary (buildUniqueDisplayLabels selected) ordered)).map
            (byLibraryRecord ("benchmark".toList ::
              ordered.map (labelOf (buildUniqueDisplayLabels selected)))) =
          (libraryTargets summary ordered).map (successRecord summary ordered) := by
        rw [List.map_map]
        exact List.map_congr_left fun p _ =>
          byLibraryRecord_targetRow ((labelsApart_perm hperm).mpr hapart) p
      have hwidth : columnCount (selectedByLibraryAlignment
          (selectedConfigurationGroupOrder selected).2) = ordered.length + 1 := by
        rw [selectedByLibraryAlignment, columnCount_cons (by decide), columnCount_alignGroups,
          sum_filter_pos, hsizes]
      have halignment : '\n' ∉ selectedByLibraryAlignment
          (selectedConfigurationGroupOrder selected).2 :=
        List.not_mem_cons_of_ne_of_not_mem (by decide) (notMem_alignGroups _)
      refine ⟨?_, fun cells hcells => ?_⟩
      · rw [selectedByLibraryRowsToLatex, hrecords]
        refine read_tableLines halignment fun cells hcells => ?_
        rcases List.mem_cons.mp hcells with rfl | hcells
        · refine ⟨List.cons_ne_nil _ _, fun cell hcell => ?_⟩
          rcases List.mem_cons.mp hcell with rfl | hcell
          · decide
          · obtain ⟨s, -, rfl⟩ := List.mem_map.mp hcell
            exact notMem_labelOf hlabels s
        · obtain ⟨p, hp, rfl⟩ := List.mem_map.mp hcells
          obtain ⟨owner, howner, hobserved⟩ := mem_libraryTargets.mp hp
          obtain ⟨hlibrary, htarget⟩ := htargets owner (hperm.mem_iff.mp howner) p hobserved
          refine ⟨List.cons_ne_nil _ _, fun cell hcell => ?_⟩
          rcases List.mem_cons.mp hcell with rfl | hcell
          · exact notMem_benchmarkLabel hlibrary htarget
          · obtain ⟨s, -, rfl⟩ := List.mem_map.mp hcell
            exact notMem_append (notMem_decimal _)
              (List.not_mem_cons_of_ne_of_not_mem (by decide) (notMem_decimal _))
      · rw [hwidth]
        rcases List.mem_cons.mp hcells with rfl | hcells
        · simp
        · obtain ⟨p, -, rfl⟩ := List.mem_map.mp hcells
          simp [successRecord]

/-- Both printed tables say what was selected. If no name has a line break in it and the fields of
the table by library are different ones, the best-of table is read back as its header and records,
the table by library as the successes of each configuration at each target, whatever characters the
names hold, and each alignment declares the columns of its table. -/
theorem tables_read_back (hlabels : ∀ s ∈ selected, '\n' ∉ s.displayLabel)
    (htargets : ∀ s ∈ selected, ∀ p ∈ observedTargets summary s.sourceColumn,
      '\n' ∉ p.1 ∧ '\n' ∉ p.2)
    (hapart : LabelsApart (buildUniqueDisplayLabels selected) selected) :
    let rows := selectedRowsFromConfigurations selected
    let ordered := (selectedConfigurationGroupOrder selected).1
    Printed (selectedAlignment rows) (selectedRowsToLatex rows)
        (selectedFieldnames rows :: rows.map (selectedRecord rows)) ∧
      ∀ table, selectedByLibraryRows summary selected = .ok (some table) →
        Printed (selectedByLibraryAlignment table.groupSizes) (selectedByLibraryRowsToLatex table)
          (("benchmark".toList :: ordered.map (labelOf (buildUniqueDisplayLabels selected))) ::
            (libraryTargets summary ordered).map (successRecord summary ordered)) :=
  ⟨printed_selected hlabels, fun _ htable =>
    printed_selectedByLibrary hlabels htargets hapart htable⟩

theorem tables_read_back_twoPayloads :
    let rows := selectedRowsFromConfigurations twoPayloadsSelection
    let ordered := (selectedConfigurationGroupOrder twoPayloadsSelection).1
    Printed (selectedAlignment rows) (selectedRowsToLatex rows)
        (selectedFieldnames rows :: rows.map (selectedRecord rows)) ∧
      ∀ table, selectedByLibraryRows twoPayloadsSummary twoPayloadsSelection = .ok (some table) →
        Printed (selectedByLibraryAlignment table.groupSizes) (selectedByLibraryRowsToLatex table)
          (("benchmark".toList ::
              ordered.map (labelOf (buildUniqueDisplayLabels twoPayloadsSelection))) ::
            (libraryTargets twoPayloadsSummary ordered).map
              (successRecord twoPayloadsSummary ordered)) :=
  tables_read_back (by decide) (by decide) (by unfold LabelsApart; decide)

end ReadBack

end SummaryTables

end KleeDeps.Postprocess

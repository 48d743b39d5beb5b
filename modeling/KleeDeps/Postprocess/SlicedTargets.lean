import KleeDeps.Postprocess.Joining

/-!
# Sliced targets in the joined table

The cases of a sliced target carry its own name, the name of the base target followed by
`_sliced`. The name is part of the key that the tables are joined on, and nothing on the
way takes the suffix off.

- `RowFor`: the rows for a location and a kind;
- `separate_rows`: **a finding of a sliced target and one of its base target at the same
  location never share a row**.
-/

namespace KleeDeps.Postprocess

open Py Shared

/-! ## The suffix -/

theorem strip_append_sliced (target : Text) :
    strip (target ++ "_sliced".toList) = lstrip target ++ "_sliced".toList := by
  have hlstrip : lstrip (target ++ "_sliced".toList) = lstrip target ++ "_sliced".toList := by
    unfold lstrip
    rw [List.dropWhile_append]
    split
    · next hnil =>
      rw [List.isEmpty_iff.mp hnil]
      decide
    · rfl
  have hsplit : "_sliced".toList = "_slice".toList ++ ['d'] := by decide
  unfold strip
  rw [hlstrip, hsplit, ← List.append_assoc]
  exact rstrip_concat (by decide)

/-- The suffix is not stripped away. -/
theorem strip_sliced_ne (target : Text) : strip target ≠ strip (target ++ "_sliced".toList) := by
  intro heq
  have hlength := congrArg List.length heq
  rw [strip_append_sliced, List.length_append] at hlength
  have hle : (strip target).length ≤ (lstrip target).length := by
    unfold strip rstrip
    exact List.IsPrefix.length_le (List.rdropWhile_prefix _ _)
  have hsuffix : "_sliced".toList.length = 7 := by decide
  omega

/-- No target is read as its sliced one. -/
theorem readOptional_sliced_ne {pandas : Pandas} (hpandas : pandas.Documented)
    (column column' : List Text) (target : Text) :
    strip (pandas.readOptional column target) ≠
      strip (pandas.readOptional column' (target ++ "_sliced".toList)) := by
  intro heq
  have hsliced : pandas.readOptional column' (target ++ "_sliced".toList) =
      target ++ "_sliced".toList :=
    hpandas.optional _ _ (Or.inl (List.mem_append_right _ (by decide)))
  rw [hsliced] at heq
  have hunderscore : '_' ∈ pandas.readOptional column target := by
    have hmem : '_' ∈ strip (pandas.readOptional column target) := by
      rw [heq, strip_append_sliced]
      exact List.mem_append_right _ (by decide)
    unfold strip rstrip lstrip at hmem
    exact (List.dropWhile_sublist _).subset ((List.rdropWhile_prefix _ _).subset hmem)
  rw [hpandas.optional _ _ (Or.inr hunderscore)] at heq
  exact strip_sliced_ne target heq

/-! ## Rows for a location -/

/-- What a name is read as in the tables that are joined. -/
def readings (pandas : Pandas) (left right : Table) (field : TableRow → Text) (name : Text) :
    List Text :=
  [left, right].filterMap fun table => (pandas.readName (table.rows.map field) name).map strip

/-- The row stands for a place of a library and a kind, whatever its target. -/
structure RowFor (pandas : Pandas) (left right : Table) (library : Text) (place : Place)
    (kind : Text) (row : TableRow) : Prop where
  library : row.library ∈ readings pandas left right TableRow.library library
  file : row.file ∈ readings pandas left right TableRow.file place.file
  line : row.line = intText place.line
  column : row.column = intText place.column
  kind : row.kind ∈ [left, right].map fun table =>
    strip (pandas.readOptional (table.rows.map TableRow.kind) kind)

/-- There is one row for the place and the kind, and it carries a value of column `i` of the
left table and one of column `j` of the right table. -/
def InOneRow (pandas : Pandas) (left right joined : Table) (library : Text) (place : Place)
    (kind : Text) (i j : Nat) : Prop :=
  ∃ row ∈ joined.rows, RowFor pandas left right library place kind row ∧
    (∀ row' ∈ joined.rows, RowFor pandas left right library place kind row' → row' = row) ∧
    (row.cell i).isSome ∧ (row.cell (left.columns.length + j)).isSome

section

variable {pandas : Pandas} {left right joined : Table} {library : Text} {place : Place}
  {kind : Text}

/-- A name that is read in one of the tables is read in both. -/
theorem read_of_mem_readings (hpandas : pandas.Documented) {field : TableRow → Text}
    {name text : Text} (h : text ∈ readings pandas left right field name) (column : List Text) :
    pandas.readName column name ≠ none := by
  intro hnone
  obtain ⟨table, -, hread⟩ := List.mem_filterMap.mp h
  obtain ⟨value, hvalue, -⟩ := Option.map_eq_some_iff.mp hread
  rw [hpandas.missing _ (table.rows.map field) name hnone] at hvalue
  cases hvalue

/-- A row at the place is read if some row stands for it. -/
theorem RowFor.isRead (hpandas : pandas.Documented) {other : TableRow}
    (h : RowFor pandas left right library place kind other) {row : TableRow}
    (hlibrary : row.library = library) (hfile : row.file = place.file) (rows : List TableRow) :
    IsRead pandas rows row := by
  unfold IsRead readNames
  rw [hlibrary, hfile]
  refine ⟨?_, ?_⟩
  · rw [Ne, Option.map_eq_none_iff]
    exact read_of_mem_readings hpandas h.library _
  · rw [Ne, Option.map_eq_none_iff]
    exact read_of_mem_readings hpandas h.file _

/-- The row that shows a row of one of the tables stands for its place. -/
theorem ShownAs.rowFor {table : Table} (htable : table ∈ [left, right]) {row shown : TableRow}
    (h : ShownAs pandas table.rows row shown) (hlibrary : row.library = library)
    (hfile : row.file = place.file) (hline : row.line = intText place.line)
    (hcolumn : row.column = intText place.column) (hkind : row.kind = kind) :
    RowFor pandas left right library place kind shown := by
  obtain ⟨hlib, hf, -, hk⟩ := ReadNames.mk.inj h.names
  refine ⟨?_, ?_, h.line.trans hline, h.column.trans hcolumn, ?_⟩
  · exact List.mem_filterMap.mpr ⟨table, htable, hlibrary ▸ hlib⟩
  · exact List.mem_filterMap.mpr ⟨table, htable, hfile ▸ hf⟩
  · exact List.mem_map.mpr ⟨table, htable, hkind ▸ hk⟩

end

/-- **Sliced targets stay apart.** For every campaign: if an unsliced case of a target
reports a place and a sliced case of its sliced target reports one that the map sends
there, for the same library and kind, the joined table does not have them in one row. -/
theorem separate_rows {F : Type} {readers : Readers F} {repr : Text → Text} {limit : Nat}
    {pandas : Pandas} (hpandas : pandas.Documented) {mapping : SlicedMap}
    {keepUnmapped allPositives : Bool} {path : Text} {runs : List ResultRun}
    {plain sliced : Merged F} {left right relabeled joined : Table}
    (hplain : mergeRuns readers false allPositives runs = .ok plain)
    (hleft : writeCsv readers plain = .ok left)
    (hsliced : mergeRuns readers true allPositives runs = .ok sliced)
    (hright : writeCsv readers sliced = .ok right)
    (hrelabel : relabelCsv repr limit mapping keepUnmapped path right = .ok relabeled)
    (hjoin : mergeOnLocation pandas left relabeled = .ok joined)
    {library target slicedFile : Text} {place : Place} {slicedLine slicedColumn : Int}
    {kind : Option Text} {name slicedName : Text} {payload slicedPayload : ResultRun × (Text × Value)}
    (hpayload : payload ∈ payloadsOf runs)
    (hreported : (name, { library := library, target := target, file := place.file
                          line := place.line, column := some place.column, kind := kind }) ∈
      reportedBy readers false allPositives payload)
    (hslicedPayload : slicedPayload ∈ payloadsOf runs)
    (hslicedReported : (slicedName, { library := library, target := target ++ "_sliced".toList
                                      file := slicedFile, line := slicedLine
                                      column := some slicedColumn, kind := kind }) ∈
      reportedBy readers true allPositives slicedPayload)
    (hmap : mapping.get? (strip library, ⟨normalizeFile slicedFile, slicedLine, slicedColumn⟩) =
      some place) (i j : Nat) :
    ¬ InOneRow pandas left relabeled joined library place (kind.getD []) i j := by
  rintro ⟨row, -, hrowFor, honly, -, -⟩
  have hleftWritten := written_of_writeCsv hleft
  have hrightWritten := (written_of_writeCsv hright).relabel hrelabel
  obtain ⟨hleftRow, -⟩ := row_of_reportedBy hplain hleft hpayload hreported (Option.some_ne_none _)
  obtain ⟨hrightRow, -⟩ := row_of_reportedBy hsliced hright hslicedPayload hslicedReported
    (Option.some_ne_none _)
  -- the row of the sliced finding is moved to the place
  have hmoved := List.mem_map_of_mem (f := underMap limit mapping) hrightRow
  rw [← (relabelCsv_rows hrelabel).2.2.1, underMap_eq hrelabel hrightRow rfl rfl] at hmoved
  simp only [Merged.row, hmap, Option.map_some, Option.getD_some] at hmoved
  obtain ⟨shown, hshown, hshownAs, -⟩ := exists_shown_left hpandas hleftWritten hjoin hleftRow
    (hrowFor.isRead hpandas rfl rfl _)
  obtain ⟨shown', hshown', hshownAs', -⟩ := exists_shown_right hpandas hleftWritten hrightWritten
    hjoin hmoved (hrowFor.isRead hpandas rfl rfl _)
  have heq := honly shown hshown (hshownAs.rowFor List.mem_cons_self rfl rfl rfl rfl rfl)
  have heq' := honly shown' hshown'
    (hshownAs'.rowFor (List.mem_cons_of_mem _ List.mem_cons_self) rfl rfl rfl rfl rfl)
  have htarget := congrArg ReadNames.target hshownAs.names
  have htarget' := congrArg ReadNames.target hshownAs'.names
  rw [heq] at htarget
  rw [heq'] at htarget'
  exact readOptional_sliced_ne hpandas _ _ target (htarget.trans htarget'.symm)

/-! ## One location of Libgcrypt -/

/-- A payload with one branch. -/
def branchPayload (library target file : String) (line column : Int) (sliced : Bool) : Value :=
  .dict [("data".toList, .list [.dict
      [("filename".toList, .str file.toList), ("line".toList, .int line),
       ("column".toList, .int column), ("kind".toList, .str "branch".toList),
       ("non_ct_time".toList, .int 1), ("reproduced_status".toList, .str "success".toList)]]),
    ("metadata".toList, .dict
      [("library".toList, .str library.toList), ("target".toList, .str target.toList),
       ("config".toList, .str "fix_pub".toList), ("sliced".toList, .bool sliced)])]

/-- A run of `modexp` and of `modexp_sliced`. -/
def modexpRuns : List ResultRun :=
  [kleeRun (branchPayload "libgcrypt" "modexp" "mpi-pow.c" 641 15 false)
    (branchPayload "libgcrypt" "modexp_sliced" "powm_sliced.c" 369 13 true)]

/-- What the run of `modexp` reports. -/
def modexpResults : Merged Nat :=
  oneColumn (kleeColumn "fix_pub" false) [libgcryptBranch "modexp" "mpi-pow.c" 641 15]

/-- What the run of `modexp_sliced` reports. -/
def modexpSlicedResults : Merged Nat :=
  oneColumn (kleeColumn "fix_pub" true) [libgcryptBranch "modexp_sliced" "powm_sliced.c" 369 13]

/-- The place both are at. -/
def mpiPow641 : Place := ⟨"mpi-pow.c".toList, 641, 15⟩

/-- The findings of the two runs at `mpi-pow.c:641:15`. -/
theorem separate_rows_mpiPow :
    ∃ joined, mergeOnLocation plainPandas (tableOf modexpResults)
        (relabeledTable (tableOf modexpSlicedResults)) = .ok joined ∧
      ¬ InOneRow plainPandas (tableOf modexpResults)
        (relabeledTable (tableOf modexpSlicedResults)) joined "libgcrypt".toList mpiPow641
        "branch".toList 0 0 :=
  ⟨_, rfl, @separate_rows Nat wholeReaders id 0 plainPandas documented_plainPandas mpiPowMap true
    true [] modexpRuns modexpResults modexpSlicedResults _ _ _ _ rfl
    (writeCsv_tableOf rfl (by decide)) rfl (writeCsv_tableOf rfl (by decide)) rfl rfl
    "libgcrypt".toList "modexp".toList "powm_sliced.c".toList mpiPow641 369 13
    (some "branch".toList) "klee_fix_pub".toList "klee_sliced_fix_pub".toList _ _
    List.mem_cons_self (by decide) (List.mem_cons_of_mem _ List.mem_cons_self) (by decide) rfl 0 0⟩

/-- They are in two rows. -/
theorem two_rows_for_mpiPow641 :
    ∃ left right relabeled joined, mergeResults wholeReaders false true modexpRuns = .ok left ∧
      mergeResults wholeReaders true true modexpRuns = .ok right ∧
      relabelCsv id 0 mpiPowMap true [] right = .ok relabeled ∧
      mergeOnLocation plainPandas left relabeled = .ok joined ∧
      (∃ row ∈ joined.rows, row.target = "modexp".toList ∧
        RowFor plainPandas left relabeled "libgcrypt".toList mpiPow641 "branch".toList row) ∧
      (∃ row ∈ joined.rows, row.target = "modexp_sliced".toList ∧
        RowFor plainPandas left relabeled "libgcrypt".toList mpiPow641 "branch".toList row) ∧
      ¬ InOneRow plainPandas left relabeled joined "libgcrypt".toList mpiPow641
        "branch".toList 0 0 := by
  have hleft : writeCsv wholeReaders modexpResults = .ok (tableOf modexpResults) :=
    writeCsv_tableOf rfl (by decide)
  have hright : writeCsv wholeReaders modexpSlicedResults = .ok (tableOf modexpSlicedResults) :=
    writeCsv_tableOf rfl (by decide)
  have hrelabel : relabelCsv id 0 mpiPowMap true [] (tableOf modexpSlicedResults) =
      .ok (relabeledTable (tableOf modexpSlicedResults)) := rfl
  have hleftWritten := written_of_writeCsv hleft
  have hrightWritten := (written_of_writeCsv hright).relabel hrelabel
  obtain ⟨joined, hjoin⟩ : ∃ joined, mergeOnLocation plainPandas (tableOf modexpResults)
      (relabeledTable (tableOf modexpSlicedResults)) = .ok joined := ⟨_, rfl⟩
  refine ⟨_, _, _, joined, hleft, hright, hrelabel, hjoin, ?_⟩
  have hread : ∀ rows row, IsRead plainPandas rows row := fun rows row =>
    ⟨Option.some_ne_none _, Option.some_ne_none _⟩
  obtain ⟨shown, hshown, hshownAs, -⟩ := exists_shown_left
    documented_plainPandas hleftWritten hjoin List.mem_cons_self (hread _ _)
  obtain ⟨shown', hshown', hshownAs', -⟩ := exists_shown_right
    documented_plainPandas hleftWritten hrightWritten hjoin List.mem_cons_self (hread _ _)
  have hfor : RowFor plainPandas (tableOf modexpResults)
      (relabeledTable (tableOf modexpSlicedResults)) "libgcrypt".toList mpiPow641
      "branch".toList shown :=
    hshownAs.rowFor List.mem_cons_self rfl rfl rfl rfl rfl
  have hfor' : RowFor plainPandas (tableOf modexpResults)
      (relabeledTable (tableOf modexpSlicedResults)) "libgcrypt".toList mpiPow641
      "branch".toList shown' :=
    hshownAs'.rowFor (List.mem_cons_of_mem _ List.mem_cons_self) rfl rfl rfl rfl rfl
  have htarget : "modexp".toList = shown.target := congrArg ReadNames.target hshownAs.names
  have htarget' : "modexp_sliced".toList = shown'.target :=
    congrArg ReadNames.target hshownAs'.names
  refine ⟨⟨shown, hshown, htarget.symm, hfor⟩, ⟨shown', hshown', htarget'.symm, hfor'⟩, ?_⟩
  rintro ⟨row, -, -, honly, -, -⟩
  rw [honly shown hshown hfor] at htarget
  rw [honly shown' hshown' hfor', ← htarget] at htarget'
  exact absurd htarget' (by decide)

end KleeDeps.Postprocess

import Mathlib.Data.Char
import Mathlib.Data.Finset.Max
import Mathlib.Data.List.Lex
import Mathlib.Data.Prod.Lex
import KleeDeps.Data.Sequence
import KleeDeps.Postprocess.VerificationTimings

/-!
# The best timing configuration of a tool

`select_best_configurations` of `merge_verification_timings.py` chooses one source column per
comparison tool. One pass over the timing rows gathers the benchmarks of each tool, and for each
source column its largest time and the benchmarks it has a time for; a second pass keeps the
column with the smallest key.

- `gathered_spec`: what the first pass has gathered, whatever the order of the rows;
- `keepBest_spec`: the second pass keeps a minimum;
- `best_selected`: **the columns selected are the true optima, and do not depend on the order of
  the rows**.
-/

namespace KleeDeps.Postprocess

open Py

namespace BestConfiguration

variable {F : Type} [LinearOrder F]

/-! ### The program -/

/-- What the selection reads of a timing row, as strings; the time is what `_to_float` gives. -/
structure Row (F : Type) where
  publicMode : Text
  sourceColumn : Text
  comparisonTool : Text
  toolFamily : Text
  benchmark : Text
  verificationTimeSeconds : Option F

/-- `_eligible_for_best_selection` -/
def Row.eligible (row : Row F) : Bool := row.publicMode = "var_pub".toList

/-- A slot of `by_source`; no time is smaller than `⊥`. -/
structure Slot (F : Type) where
  sourceColumn : Text
  comparisonTool : Text
  toolFamily : Text
  maxTime : WithBot F
  benchmarks : Finset Text

/-- The variables of the first loop. -/
structure Gathered (F : Type) where
  benchmarksByTool : Dict Text (Finset Text)
  bySource : Dict Text (Slot F)

/-- `by_source.setdefault(source_column, ...)` -/
def Gathered.slot (g : Gathered F) (row : Row F) : Slot F :=
  (g.bySource.get? row.sourceColumn).getD
    { sourceColumn := row.sourceColumn
      comparisonTool := row.comparisonTool
      toolFamily := row.toolFamily
      maxTime := ⊥
      benchmarks := ∅ }

/-- The body of the first loop. -/
def gatherRow (g : Gathered F) (row : Row F) : Gathered F :=
  if row.eligible then
    let benchmarks := insert row.benchmark ((g.benchmarksByTool.get? row.comparisonTool).getD ∅)
    let g := { g with benchmarksByTool := g.benchmarksByTool.set row.comparisonTool benchmarks }
    match row.verificationTimeSeconds with
    | none => g
    | some value =>
      let slot := g.slot row
      { g with bySource := g.bySource.set row.sourceColumn { slot with
          maxTime := max slot.maxTime value
          benchmarks := insert row.benchmark slot.benchmarks } }
  else g

def gather (rows : List (Row F)) : Gathered F := rows.foldl gatherRow ⟨.empty, .empty⟩

/-- A selected configuration. -/
structure Selected (F : Type) where
  sourceColumn : Text
  comparisonTool : Text
  toolFamily : Text
  maxTime : WithBot F
  missingBenchmarkTargets : Nat

/-- `candidate_key`, compared as Python compares tuples. -/
def Selected.key (s : Selected F) : Nat ×ₗ WithBot F ×ₗ Text :=
  toLex (s.missingBenchmarkTargets, toLex (s.maxTime, s.sourceColumn))

/-- A candidate of the second loop; `missing_count` is not negative. -/
def Gathered.candidate (g : Gathered F) (slot : Slot F) : Selected F :=
  let expected := (g.benchmarksByTool.get? slot.comparisonTool).getD ∅
  { sourceColumn := slot.sourceColumn
    comparisonTool := slot.comparisonTool
    toolFamily := slot.toolFamily
    maxTime := slot.maxTime
    missingBenchmarkTargets := expected.card - slot.benchmarks.card }

/-- The body of the second loop. -/
def keepBest (best : Dict Text (Selected F)) (candidate : Selected F) : Dict Text (Selected F) :=
  match best.get? candidate.comparisonTool with
  | none => best.set candidate.comparisonTool candidate
  | some previous =>
    if candidate.key < previous.key then best.set candidate.comparisonTool candidate else best

/-- `_tool_order` -/
def toolOrder (s : Selected F) : Nat ×ₗ Text :=
  let group :=
    if s.comparisonTool = "klee_cf".toList then 0
    else if isKleeFamily s.comparisonTool s.toolFamily then 1
    else 2
  toLex (group, s.comparisonTool)

/-- `select_best_configurations` -/
def selectBestConfigurations (rows : List (Row F)) : List (Selected F) :=
  let g := gather rows
  let candidates := g.bySource.items.map fun item => g.candidate item.2
  let best := candidates.foldl keepBest .empty
  (best.items.map Prod.snd).mergeSort fun a b => !decide (toolOrder b < toolOrder a)

/-! ### What is to be optimised -/

/-- The benchmarks of a tool. -/
def expected (rows : List (Row F)) (tool : Text) : Finset Text :=
  ((rows.filter fun r => r.eligible ∧ r.comparisonTool = tool).map Row.benchmark).toFinset

/-- The rows of a source column that count and have a time. -/
def timed (rows : List (Row F)) (column : Text) : List (Row F) :=
  rows.filter fun r =>
    (r.eligible ∧ r.verificationTimeSeconds.isSome) ∧ r.sourceColumn = column

def observed (rows : List (Row F)) (column : Text) : Finset Text :=
  ((timed rows column).map Row.benchmark).toFinset

def maxTime (rows : List (Row F)) (column : Text) : WithBot F :=
  ((timed rows column).filterMap Row.verificationTimeSeconds).toFinset.max

/-- A tool has a row with a time in the source column. -/
def Candidate (rows : List (Row F)) (tool column : Text) : Prop :=
  ∃ row ∈ timed rows column, row.comparisonTool = tool

/-- Benchmarks without a time, largest time and name. -/
def cost (rows : List (Row F)) (tool column : Text) : Nat ×ₗ WithBot F ×ₗ Text :=
  toLex ((expected rows tool \ observed rows column).card, toLex (maxTime rows column, column))

/-- The source column is the optimum of the tool. -/
def IsBest (rows : List (Row F)) (tool column : Text) : Prop :=
  Candidate rows tool column ∧
    ∀ other, Candidate rows tool other → cost rows tool column ≤ cost rows tool other

/-- Among the rows that count, a source column always has the same comparison tool. -/
def ToolOfColumn (rows : List (Row F)) : Prop :=
  ∀ r ∈ rows, ∀ r' ∈ rows, r.eligible → r'.eligible → r.sourceColumn = r'.sourceColumn →
    r.comparisonTool = r'.comparisonTool

/-- It always has the same tool family. -/
def FamilyOfColumn (rows : List (Row F)) : Prop :=
  ∀ r ∈ rows, ∀ r' ∈ rows, r.eligible → r'.eligible → r.sourceColumn = r'.sourceColumn →
    r.toolFamily = r'.toolFamily

/-! ### The first loop -/

/-- What is known of a slot. -/
def slotOf (rows : List (Row F)) (column : Text) : Option (Slot F) :=
  (timed rows column).head?.map fun first =>
    { sourceColumn := column
      comparisonTool := first.comparisonTool
      toolFamily := first.toolFamily
      maxTime := maxTime rows column
      benchmarks := observed rows column }

/-- What the loop has gathered. -/
structure GatheredSpec (rows : List (Row F)) (g : Gathered F) : Prop where
  tools : ∀ tool, (g.benchmarksByTool.get? tool).getD ∅ = expected rows tool
  sources : ∀ column, g.bySource.get? column = slotOf rows column

omit [LinearOrder F] in
theorem expected_concat (rows : List (Row F)) (row : Row F) (tool : Text) :
    expected (rows ++ [row]) tool =
      if row.eligible ∧ row.comparisonTool = tool then insert row.benchmark (expected rows tool)
      else expected rows tool := by
  rw [expected, List.filter_append, List.map_append, List.toFinset_append]
  by_cases h : row.eligible ∧ row.comparisonTool = tool
  · rw [if_pos h, List.filter_cons, if_pos (decide_eq_true h), Finset.union_comm]
    rfl
  · rw [if_neg h, List.filter_cons, if_neg fun hd => h (of_decide_eq_true hd)]
    exact Finset.union_empty _

omit [LinearOrder F] in
theorem timed_concat (rows : List (Row F)) (row : Row F) (column : Text) :
    timed (rows ++ [row]) column = timed rows column ++
      if (row.eligible ∧ row.verificationTimeSeconds.isSome) ∧ row.sourceColumn = column then [row]
      else [] := by
  rw [timed, List.filter_append]
  refine congrArg (timed rows column ++ ·) ?_
  split
  · rw [List.filter_cons, if_pos (decide_eq_true ‹_›)]
    rfl
  · rw [List.filter_cons, if_neg fun hd => ‹¬ _› (of_decide_eq_true hd)]
    rfl

omit [LinearOrder F] in
theorem timed_concat_of_not {rows : List (Row F)} {row : Row F} {column : Text}
    (h : ¬ ((row.eligible ∧ row.verificationTimeSeconds.isSome) ∧ row.sourceColumn = column)) :
    timed (rows ++ [row]) column = timed rows column := by
  rw [timed_concat, if_neg h, List.append_nil]

/-- The slot of a column depends on its timed rows. -/
theorem slotOf_congr {rows rows' : List (Row F)} {column : Text}
    (h : timed rows column = timed rows' column) : slotOf rows column = slotOf rows' column := by
  rw [slotOf, slotOf, maxTime, maxTime, observed, observed, h]

theorem maxTime_concat {rows : List (Row F)} {row : Row F} {value : F} (heligible : row.eligible)
    (hvalue : row.verificationTimeSeconds = some value) :
    maxTime (rows ++ [row]) row.sourceColumn = max (maxTime rows row.sourceColumn) value := by
  have hown : (row.eligible ∧ row.verificationTimeSeconds.isSome) ∧
      row.sourceColumn = row.sourceColumn := ⟨⟨heligible, hvalue ▸ rfl⟩, rfl⟩
  have hone : [row].filterMap Row.verificationTimeSeconds = [value] := by
    rw [List.filterMap_cons_some hvalue]
    rfl
  rw [maxTime, timed_concat, if_pos hown, List.filterMap_append, hone, List.toFinset_append,
    Finset.union_comm]
  have hinsert : ∀ times : Finset F, [value].toFinset ∪ times = insert value times := fun _ => rfl
  rw [hinsert, Finset.max_insert]
  exact max_comm _ _

omit [LinearOrder F] in
theorem observed_concat {rows : List (Row F)} {row : Row F} (heligible : row.eligible)
    (hvalue : row.verificationTimeSeconds.isSome) :
    observed (rows ++ [row]) row.sourceColumn =
      insert row.benchmark (observed rows row.sourceColumn) := by
  rw [observed, timed_concat, if_pos ⟨⟨heligible, hvalue⟩, rfl⟩, List.map_append,
    List.toFinset_append, Finset.union_comm]
  rfl

/-- The slot a row is added to. -/
theorem slotOf_concat {rows : List (Row F)} {row : Row F} {value : F} (heligible : row.eligible)
    (hvalue : row.verificationTimeSeconds = some value) {g : Gathered F}
    (hg : g.bySource.get? row.sourceColumn = slotOf rows row.sourceColumn) :
    slotOf (rows ++ [row]) row.sourceColumn = some { g.slot row with
      maxTime := max (g.slot row).maxTime value
      benchmarks := insert row.benchmark (g.slot row).benchmarks } := by
  have hsome : row.verificationTimeSeconds.isSome := by rw [hvalue]; rfl
  have hmax := @maxTime_concat F _ rows row value heligible hvalue
  have hobserved := @observed_concat F rows row heligible hsome
  rw [slotOf, timed_concat, if_pos ⟨⟨heligible, hsome⟩, rfl⟩, hmax, hobserved, Gathered.slot, hg,
    slotOf]
  cases h : timed rows row.sourceColumn with
  | nil =>
    have hbot : maxTime rows row.sourceColumn = ⊥ := by rw [maxTime, h]; rfl
    have hempty : observed rows row.sourceColumn = ∅ := by rw [observed, h]; rfl
    rw [hbot, hempty]
    rfl
  | cons first rest => rfl

/-- **Step lemma** of the first loop. -/
theorem GatheredSpec.gatherRow {rows : List (Row F)} {g : Gathered F} (h : GatheredSpec rows g)
    (row : Row F) : GatheredSpec (rows ++ [row]) (gatherRow g row) := by
  rw [BestConfiguration.gatherRow]
  by_cases heligible : row.eligible
  · rw [if_pos heligible]
    -- an eligible row adds its benchmark to its tool, and its time, if it has one, to its column
    have htools : ∀ tool, ((g.benchmarksByTool.set row.comparisonTool
        (insert row.benchmark ((g.benchmarksByTool.get? row.comparisonTool).getD ∅))).get?
          tool).getD ∅ = expected (rows ++ [row]) tool := by
      intro tool
      rw [Dict.get?_set, expected_concat]
      by_cases htool : row.comparisonTool = tool
      · rw [if_pos htool, if_pos ⟨heligible, htool⟩, Option.getD_some, h.tools, htool]
      · rw [if_neg htool, if_neg fun hand => htool hand.2, h.tools]
    cases hvalue : row.verificationTimeSeconds with
    | none =>
      refine ⟨htools, fun column => (h.sources column).trans (slotOf_congr ?_)⟩
      exact (timed_concat_of_not fun hand => by simp [hvalue] at hand).symm
    | some value =>
      refine ⟨htools, fun column => ?_⟩
      show (g.bySource.set row.sourceColumn _).get? column = _
      rw [Dict.get?_set]
      by_cases hcolumn : row.sourceColumn = column
      · subst hcolumn
        rw [if_pos rfl, slotOf_concat heligible hvalue (h.sources _)]
        rfl
      · rw [if_neg hcolumn, h.sources]
        exact slotOf_congr (timed_concat_of_not fun hand => hcolumn hand.2).symm
  · rw [if_neg heligible]
    constructor
    · intro tool
      rw [expected_concat, if_neg fun hand => heligible hand.1, h.tools]
    · intro column
      rw [h.sources]
      exact slotOf_congr (timed_concat_of_not fun hand => heligible hand.1.1).symm

/-- What the first loop has gathered. -/
theorem gathered_spec (rows : List (Row F)) : GatheredSpec rows (gather rows) := by
  have hstart : GatheredSpec ([] : List (Row F)) ⟨.empty, .empty⟩ := ⟨fun _ => rfl, fun _ => rfl⟩
  exact Sequence.foldl_induction GatheredSpec [] hstart (fun _ row _ h => h.gatherRow row) rows

/-! ### The second loop -/

/-- What is kept for each tool: a candidate of the tool with a smallest key, if there is one. -/
structure KeptSpec (candidates : List (Selected F)) (best : Dict Text (Selected F)) : Prop where
  kept : ∀ tool s, best.get? tool = some s →
    s ∈ candidates ∧ s.comparisonTool = tool ∧
      ∀ c ∈ candidates, c.comparisonTool = tool → s.key ≤ c.key
  complete : ∀ c ∈ candidates, ∃ s, best.get? c.comparisonTool = some s

/-- **Step lemma** of the second loop. -/
theorem KeptSpec.keepBest {candidates : List (Selected F)} {best : Dict Text (Selected F)}
    (h : KeptSpec candidates best) (candidate : Selected F) :
    KeptSpec (candidates ++ [candidate]) (keepBest best candidate) := by
  -- the candidate is kept
  have hset : (∀ s, best.get? candidate.comparisonTool = some s → candidate.key < s.key) →
      KeptSpec (candidates ++ [candidate]) (best.set candidate.comparisonTool candidate) := by
    intro hless
    constructor
    · intro tool s hs
      rw [Dict.get?_set] at hs
      by_cases htool : candidate.comparisonTool = tool
      · rw [if_pos htool] at hs
        obtain rfl := Option.some.inj hs
        refine ⟨List.mem_append_right _ (List.mem_singleton.mpr rfl), htool, fun c hc hct => ?_⟩
        rcases List.mem_append.mp hc with hc | hc
        · obtain ⟨s, hs⟩ := h.complete c hc
          have hle := (h.kept _ s hs).2.2 c hc rfl
          rw [hct, ← htool] at hs
          exact ((hless s hs).trans_le hle).le
        · rw [List.mem_singleton.mp hc]
      · rw [if_neg htool] at hs
        obtain ⟨hmem, hst, hmin⟩ := h.kept tool s hs
        refine ⟨List.mem_append_left _ hmem, hst, fun c hc hct => ?_⟩
        rcases List.mem_append.mp hc with hc | hc
        · exact hmin c hc hct
        · rw [List.mem_singleton.mp hc] at hct
          exact absurd hct htool
    · intro c hc
      rw [Dict.get?_set]
      split
      · exact ⟨candidate, rfl⟩
      · rename_i hne
        rcases List.mem_append.mp hc with hc | hc
        · exact h.complete c hc
        · exact absurd (List.mem_singleton.mp hc ▸ rfl) hne
  rw [BestConfiguration.keepBest]
  split
  · rename_i hnone
    exact hset fun s hs => by cases hnone.symm.trans hs
  · rename_i previous hprevious
    split
    · exact hset fun s hs => by
        obtain rfl := Option.some.inj (hprevious.symm.trans hs)
        assumption
    · rename_i hnot
      constructor
      · intro tool s hs
        obtain ⟨hmem, hst, hmin⟩ := h.kept tool s hs
        refine ⟨List.mem_append_left _ hmem, hst, fun c hc hct => ?_⟩
        rcases List.mem_append.mp hc with hc | hc
        · exact hmin c hc hct
        · obtain rfl := List.mem_singleton.mp hc
          rw [hct] at hprevious
          obtain rfl := Option.some.inj (hprevious.symm.trans hs)
          exact not_lt.mp hnot
      · intro c hc
        rcases List.mem_append.mp hc with hc | hc
        · exact h.complete c hc
        · exact List.mem_singleton.mp hc ▸ ⟨previous, hprevious⟩

theorem keepBest_spec (candidates : List (Selected F)) :
    KeptSpec candidates (candidates.foldl keepBest .empty) := by
  have hstart : KeptSpec ([] : List (Selected F)) .empty :=
    ⟨fun _ _ h => (by cases h), fun _ h => absurd h List.not_mem_nil⟩
  exact Sequence.foldl_induction KeptSpec [] hstart (fun _ candidate _ h => h.keepBest candidate)
    candidates

/-! ### The selection -/

omit [LinearOrder F] in
theorem mem_timed {rows : List (Row F)} {column : Text} {row : Row F} :
    row ∈ timed rows column ↔ row ∈ rows ∧
      (row.eligible ∧ row.verificationTimeSeconds.isSome) ∧ row.sourceColumn = column := by
  rw [timed, List.mem_filter, decide_eq_true_iff]

omit [LinearOrder F] in
/-- All rows of a column that count have the tool of the first one. -/
theorem candidate_iff {rows : List (Row F)} (htool : ToolOfColumn rows) {column tool : Text}
    {first : Row F} {rest : List (Row F)} (h : timed rows column = first :: rest) :
    Candidate rows tool column ↔ first.comparisonTool = tool := by
  have hfirst := mem_timed.mp (h ▸ List.mem_cons_self : first ∈ timed rows column)
  constructor
  · rintro ⟨row, hrow, rfl⟩
    obtain ⟨hmem, ⟨heligible, -⟩, hcolumn⟩ := mem_timed.mp hrow
    exact htool first hfirst.1 row hmem hfirst.2.1.1 heligible (hfirst.2.2.trans hcolumn.symm)
  · rintro rfl
    exact ⟨first, h ▸ List.mem_cons_self, rfl⟩

omit [LinearOrder F] in
/-- A tool has no time for benchmarks of its own only. -/
theorem observed_subset {rows : List (Row F)} (htool : ToolOfColumn rows) {column tool : Text}
    (h : Candidate rows tool column) : observed rows column ⊆ expected rows tool := by
  obtain ⟨row, hrow, rfl⟩ := h
  obtain ⟨hmem, ⟨heligible, -⟩, hcolumn⟩ := mem_timed.mp hrow
  intro benchmark hbenchmark
  obtain ⟨other, hother, rfl⟩ := List.mem_map.mp (List.mem_toFinset.mp hbenchmark)
  obtain ⟨hmem', ⟨heligible', -⟩, hcolumn'⟩ := mem_timed.mp hother
  have hsame := htool other hmem' row hmem heligible' heligible (hcolumn'.trans hcolumn.symm)
  refine List.mem_toFinset.mpr (List.mem_map.mpr ⟨other, List.mem_filter.mpr ⟨hmem', ?_⟩, rfl⟩)
  exact decide_eq_true ⟨heligible', hsame⟩

/-- The candidates of the second loop. -/
def candidates (rows : List (Row F)) : List (Selected F) :=
  (gather rows).bySource.items.map fun item => (gather rows).candidate item.2

/-- A candidate is a source column of its tool, with its cost and the family of its first row. -/
theorem spec_of_mem_candidates {rows : List (Row F)} (htool : ToolOfColumn rows) {s : Selected F}
    (hs : s ∈ candidates rows) :
    Candidate rows s.comparisonTool s.sourceColumn ∧
      s.key = cost rows s.comparisonTool s.sourceColumn ∧
      ∃ first ∈ timed rows s.sourceColumn, s.toolFamily = first.toolFamily := by
  have hspec := gathered_spec rows
  obtain ⟨⟨column, slot⟩, hitem, rfl⟩ := List.mem_map.mp hs
  have hget := Dict.mem_items_iff.mp hitem
  rw [hspec.sources, slotOf] at hget
  cases htimed : timed rows column with
  | nil =>
    rw [htimed] at hget
    cases hget
  | cons first rest =>
    rw [htimed] at hget
    obtain rfl := Option.some.inj hget
    have hcandidate := (candidate_iff htool htimed).mpr rfl
    refine ⟨hcandidate, ?_, first, ?_, rfl⟩
    · show toLex ((((gather rows).benchmarksByTool.get? first.comparisonTool).getD ∅).card -
        (observed rows column).card, toLex (maxTime rows column, column)) = _
      rw [hspec.tools, ← Finset.card_sdiff_of_subset (observed_subset htool hcandidate)]
      rfl
    · show first ∈ timed rows column
      rw [htimed]
      exact List.mem_cons_self

theorem exists_mem_candidates {rows : List (Row F)} (htool : ToolOfColumn rows)
    {tool column : Text} (h : Candidate rows tool column) :
    ∃ s ∈ candidates rows, s.comparisonTool = tool ∧ s.sourceColumn = column := by
  cases htimed : timed rows column with
  | nil =>
    obtain ⟨row, hrow, -⟩ := h
    rw [htimed] at hrow
    exact absurd hrow List.not_mem_nil
  | cons first rest =>
    have hslot := (gathered_spec rows).sources column
    rw [slotOf, htimed, List.head?_cons, Option.map_some] at hslot
    exact ⟨_, List.mem_map.mpr ⟨_, Dict.mem_items_iff.mpr hslot, rfl⟩,
      (candidate_iff htool htimed).mp h, rfl⟩

/-- The configurations selected are the candidates with a smallest key for their tool. -/
theorem mem_selected_iff {rows : List (Row F)} {s : Selected F} :
    s ∈ selectBestConfigurations rows ↔
      ((candidates rows).foldl keepBest .empty).get? s.comparisonTool = some s := by
  have hspec := keepBest_spec (candidates rows)
  show s ∈ (((candidates rows).foldl keepBest .empty).items.map Prod.snd).mergeSort _ ↔ _
  rw [List.mem_mergeSort]
  constructor
  · intro hs
    obtain ⟨⟨tool, t⟩, hitem, rfl⟩ := List.mem_map.mp hs
    have hget := Dict.mem_items_iff.mp hitem
    obtain ⟨-, rfl, -⟩ := hspec.kept tool t hget
    exact hget
  · exact fun hs => List.mem_map.mpr ⟨_, Dict.mem_items_iff.mpr hs, rfl⟩

/-- What is selected for a tool is its optimum. -/
theorem isBest_of_mem {rows : List (Row F)} (htool : ToolOfColumn rows) {s : Selected F}
    (hs : s ∈ selectBestConfigurations rows) : IsBest rows s.comparisonTool s.sourceColumn := by
  obtain ⟨hmem, -, hmin⟩ := (keepBest_spec (candidates rows)).kept _ s (mem_selected_iff.mp hs)
  obtain ⟨hcandidate, hkey, -⟩ := spec_of_mem_candidates htool hmem
  refine ⟨hcandidate, fun other hother => ?_⟩
  obtain ⟨c, hc, hct, rfl⟩ := exists_mem_candidates htool hother
  rw [← hkey, ← hct, ← (spec_of_mem_candidates htool hc).2.1]
  exact hmin c hc hct

/-- A tool with a time has something selected for it. -/
theorem exists_selected {rows : List (Row F)} (htool : ToolOfColumn rows) {tool column : Text}
    (h : Candidate rows tool column) :
    ∃ s ∈ selectBestConfigurations rows, s.comparisonTool = tool := by
  obtain ⟨c, hc, rfl, -⟩ := exists_mem_candidates htool h
  obtain ⟨s, hs⟩ := (keepBest_spec (candidates rows)).complete c hc
  have hsame := ((keepBest_spec (candidates rows)).kept _ s hs).2.1
  exact ⟨s, mem_selected_iff.mpr (hsame ▸ hs), hsame⟩

/-- The optimum of a tool is unique, for its name is part of the cost. -/
theorem IsBest.unique {rows : List (Row F)} {tool column column' : Text}
    (h : IsBest rows tool column) (h' : IsBest rows tool column') : column = column' := by
  have heq : cost rows tool column = cost rows tool column' :=
    le_antisymm (h.2 column' h'.1) (h'.2 column h.1)
  exact congrArg (fun key => (ofLex (ofLex key).2).2) heq

/-- A tool has one entry. -/
theorem nodup_selected (rows : List (Row F)) :
    ((selectBestConfigurations rows).map Selected.comparisonTool).Nodup := by
  obtain ⟨best, hbest⟩ : ∃ best, best = (candidates rows).foldl keepBest .empty := ⟨_, rfl⟩
  have hperm : (selectBestConfigurations rows).Perm (best.items.map Prod.snd) := by
    rw [hbest]
    exact List.mergeSort_perm _ _
  have hkeys : (best.items.map Prod.snd).map Selected.comparisonTool = best.keys := by
    rw [List.map_map]
    refine List.map_congr_left fun item hitem => ?_
    have hget := Dict.mem_items_iff.mp (show (item.1, item.2) ∈ best.items from hitem)
    rw [hbest] at hget
    exact ((keepBest_spec (candidates rows)).kept item.1 item.2 hget).2.1
  rw [(hperm.map Selected.comparisonTool).nodup_iff, hkeys]
  exact best.nodup

/-- What is selected: the optima of the tools that have a time. -/
theorem exists_selected_iff {rows : List (Row F)} (htool : ToolOfColumn rows) (tool column : Text) :
    (∃ s ∈ selectBestConfigurations rows, s.comparisonTool = tool ∧ s.sourceColumn = column) ↔
      IsBest rows tool column := by
  constructor
  · rintro ⟨s, hs, rfl, rfl⟩
    exact isBest_of_mem htool hs
  · intro hbest
    obtain ⟨s, hs, rfl⟩ := exists_selected htool hbest.1
    exact ⟨s, hs, rfl, (isBest_of_mem htool hs).unique hbest⟩

/-! ### Rows in another order -/

section Order

variable {rows rows' : List (Row F)}

omit [LinearOrder F] in
theorem timed_perm (h : rows.Perm rows') (column : Text) :
    (timed rows column).Perm (timed rows' column) := h.filter _

omit [LinearOrder F] in
theorem candidate_perm (h : rows.Perm rows') {tool column : Text} :
    Candidate rows tool column ↔ Candidate rows' tool column :=
  exists_congr fun _ => and_congr_left fun _ => (timed_perm h column).mem_iff

theorem cost_perm (h : rows.Perm rows') (tool column : Text) :
    cost rows tool column = cost rows' tool column := by
  have hexpected : expected rows tool = expected rows' tool :=
    List.toFinset_eq_of_perm _ _ ((h.filter _).map _)
  have hobserved : observed rows column = observed rows' column :=
    List.toFinset_eq_of_perm _ _ ((timed_perm h column).map _)
  have hmax : maxTime rows column = maxTime rows' column :=
    congrArg Finset.max (List.toFinset_eq_of_perm _ _ ((timed_perm h column).filterMap _))
  rw [cost, cost, hexpected, hobserved, hmax]

theorem isBest_perm (h : rows.Perm rows') {tool column : Text} :
    IsBest rows tool column ↔ IsBest rows' tool column := by
  rw [IsBest, IsBest, candidate_perm h, cost_perm h]
  refine and_congr_right fun _ => forall_congr' fun other => ?_
  rw [candidate_perm h, cost_perm h]

omit [LinearOrder F] in
theorem toolOfColumn_perm (h : rows.Perm rows') (htool : ToolOfColumn rows) :
    ToolOfColumn rows' :=
  fun r hr r' hr' => htool r (h.mem_iff.mpr hr) r' (h.mem_iff.mpr hr')

/-- The entry of a tool comes back, if the family is that of every row of the column. -/
theorem mem_selected_perm (htool : ToolOfColumn rows) (hfamily : FamilyOfColumn rows)
    (h : rows.Perm rows') {s : Selected F} (hs : s ∈ selectBestConfigurations rows) :
    s ∈ selectBestConfigurations rows' := by
  have htool' := toolOfColumn_perm h htool
  obtain ⟨s', hs', hsametool, hsamecolumn⟩ :=
    (exists_selected_iff htool' _ _).mpr ((isBest_perm h).mp (isBest_of_mem htool hs))
  obtain ⟨hmem, -, -⟩ := (keepBest_spec (candidates rows)).kept _ s (mem_selected_iff.mp hs)
  obtain ⟨hmem', -, -⟩ := (keepBest_spec (candidates rows')).kept _ s' (mem_selected_iff.mp hs')
  obtain ⟨-, hkey, first, hfirst, hfirstFamily⟩ := spec_of_mem_candidates htool hmem
  obtain ⟨-, hkey', first', hfirst', hfirstFamily'⟩ := spec_of_mem_candidates htool' hmem'
  have hsamekey : s.key = s'.key := by
    rw [hkey, hkey', hsametool, hsamecolumn, cost_perm h]
  have hsamefamily : s.toolFamily = s'.toolFamily := by
    obtain ⟨hrow, ⟨heligible, -⟩, hcolumn⟩ := mem_timed.mp hfirst
    obtain ⟨hrow', ⟨heligible', -⟩, hcolumn'⟩ := mem_timed.mp hfirst'
    rw [hfirstFamily, hfirstFamily']
    exact hfamily first hrow first' (h.mem_iff.mpr hrow') heligible heligible'
      (hcolumn.trans (hsamecolumn.symm.trans hcolumn'.symm))
  obtain ⟨column, tool, family, time, missing⟩ := s
  obtain ⟨column', tool', family', time', missing'⟩ := s'
  dsimp only at hsametool hsamecolumn hsamefamily
  obtain ⟨rfl, hrest⟩ := Prod.mk.inj (show (missing, toLex (time, column)) =
    (missing', toLex (time', column')) from hsamekey)
  obtain ⟨rfl, -⟩ := Prod.mk.inj (show (time, column) = (time', column') from hrest)
  rw [hsametool, hsamecolumn, ← hsamefamily] at hs'
  exact hs'

omit [LinearOrder F] in
theorem familyOfColumn_perm (h : rows.Perm rows') (hfamily : FamilyOfColumn rows) :
    FamilyOfColumn rows' :=
  fun r hr r' hr' => hfamily r (h.mem_iff.mpr hr) r' (h.mem_iff.mpr hr')

theorem sorted_selected (rows : List (Row F)) :
    (selectBestConfigurations rows).Pairwise
      fun a b => (!decide (toolOrder b < toolOrder a)) = true := by
  refine List.pairwise_mergeSort (fun a b c hab hbc => ?_) (fun a b => ?_) _
  · simp only [Bool.not_eq_true', decide_eq_false_iff_not, not_lt] at hab hbc ⊢
    exact hab.trans hbc
  · simp only [Bool.or_eq_true, Bool.not_eq_true', decide_eq_false_iff_not, not_lt]
    exact le_total _ _

/-- The list itself is the same then, for it is sorted by the tools. -/
theorem selected_perm (htool : ToolOfColumn rows) (hfamily : FamilyOfColumn rows)
    (h : rows.Perm rows') : selectBestConfigurations rows = selectBestConfigurations rows' := by
  have hmem : ∀ s, s ∈ selectBestConfigurations rows ↔ s ∈ selectBestConfigurations rows' :=
    fun s => ⟨mem_selected_perm htool hfamily h, mem_selected_perm (toolOfColumn_perm h htool)
      (familyOfColumn_perm h hfamily) h.symm⟩
  have hperm := (List.perm_ext_iff_of_nodup (nodup_selected rows).of_map
    (nodup_selected rows').of_map).mpr hmem
  refine hperm.eq_of_pairwise (fun a b ha hb hab hba => ?_) (sorted_selected rows)
    (sorted_selected rows')
  simp only [Bool.not_eq_true', decide_eq_false_iff_not, not_lt] at hab hba
  have htools : a.comparisonTool = b.comparisonTool :=
    congrArg (fun order => (ofLex order).2) (le_antisymm hab hba)
  exact List.inj_on_of_nodup_map (nodup_selected rows) ha ((hmem b).mpr hb) htools

end Order

/-- **The best configurations are the true optima.** Where a source column always has the same
comparison tool: what is selected for a tool is the optimum of the tool, every tool with a time
has one entry, and in any other order of the rows the same columns are selected; the list with all
its fields is the same if a source column always has the same tool family. -/
theorem best_selected {rows rows' : List (Row F)} (htool : ToolOfColumn rows)
    (h : rows.Perm rows') :
    (∀ tool column,
      (∃ s ∈ selectBestConfigurations rows, s.comparisonTool = tool ∧ s.sourceColumn = column) ↔
        IsBest rows tool column) ∧
    ((selectBestConfigurations rows).map Selected.comparisonTool).Nodup ∧
    (∀ tool, (∃ column, Candidate rows tool column) →
      ∃ s ∈ selectBestConfigurations rows, s.comparisonTool = tool) ∧
    (∀ tool column,
      (∃ s ∈ selectBestConfigurations rows, s.comparisonTool = tool ∧ s.sourceColumn = column) ↔
        ∃ s ∈ selectBestConfigurations rows',
          s.comparisonTool = tool ∧ s.sourceColumn = column) ∧
    (FamilyOfColumn rows → selectBestConfigurations rows = selectBestConfigurations rows') := by
  refine ⟨exists_selected_iff htool, nodup_selected rows, ?_, fun tool column => ?_, ?_⟩
  · rintro tool ⟨column, hcandidate⟩
    exact exists_selected htool hcandidate
  · rw [exists_selected_iff htool, exists_selected_iff (toolOfColumn_perm h htool)]
    exact isBest_perm h
  · exact fun hfamily => selected_perm htool hfamily h

/-- Two columns of one tool; the faster one lacks a benchmark. -/
def twoColumns : List (Row Nat) :=
  [⟨"var_pub".toList, "a".toList, "binsec".toList, "binsec".toList, "aes".toList, some 5⟩,
    ⟨"var_pub".toList, "b".toList, "binsec".toList, "binsec".toList, "aes".toList, some 9⟩,
    ⟨"var_pub".toList, "a".toList, "binsec".toList, "binsec".toList, "des".toList, none⟩,
    ⟨"var_pub".toList, "b".toList, "binsec".toList, "binsec".toList, "des".toList, some 3⟩]

theorem isBest_twoColumns : IsBest twoColumns "binsec".toList "b".toList := by
  refine ⟨by unfold Candidate; decide, ?_⟩
  rintro other ⟨row, hrow, -⟩
  obtain ⟨hmem, -, rfl⟩ := mem_timed.mp hrow
  have hcolumns : ∀ row ∈ twoColumns, cost twoColumns "binsec".toList "b".toList ≤
    cost twoColumns "binsec".toList row.sourceColumn := by decide
  exact hcolumns row hmem

theorem best_selected_twoColumns :
    (∃ s ∈ selectBestConfigurations twoColumns,
      s.comparisonTool = "binsec".toList ∧ s.sourceColumn = "b".toList) ∧
    selectBestConfigurations twoColumns = selectBestConfigurations twoColumns.reverse := by
  have htool : ToolOfColumn twoColumns := by
    unfold ToolOfColumn
    decide
  have hfamily : FamilyOfColumn twoColumns := by
    unfold FamilyOfColumn
    decide
  obtain ⟨hbest, -, -, -, hsame⟩ := best_selected htool (List.reverse_perm twoColumns).symm
  exact ⟨(hbest _ _).mpr isBest_twoColumns, hsame hfamily⟩

end BestConfiguration

end KleeDeps.Postprocess

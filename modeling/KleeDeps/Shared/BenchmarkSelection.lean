import KleeDeps.Data.Sequence
import KleeDeps.Shared.Registry

/-!
# The benchmarks a runner selects

A campaign names benchmarks in its config, as a string or an array of `LIBRARY:TARGET`; it checks
the names against the registry and gives each runner the selection again, as the value of
`--benchmarks`.

- `selectedBenchmarks`, `benchmarkCsvFromConfig`: the readers;
- `selectValues_eq_ok_iff`: what is accepted;
- `selection_reaches_runner`: **a runner selects what the campaign has checked**, in its order.
-/

namespace KleeDeps.Shared

open Py Experiments

/-! ## Selectors (`experiment_registry.py`) -/

section Selectors

variable (repr : Text → Text) (definitions : List BenchmarkDefinition)

/-- `definition` -/
def definition (libraryId targetId : Text) : Except Exc BenchmarkDefinition :=
  match definitions.find? fun d => d.identity = (libraryId, targetId) with
  | some d => .ok d
  | none => .error (.valueError
    ("unknown benchmark ".toList ++ repr (formatBenchmarkSelector (libraryId, targetId))))

/-- `parse_benchmark_selector` -/
def parseBenchmarkSelector (rawValue : Text) : Except Exc (Text × Text) :=
  let libraryId := rawValue.takeWhile (· ≠ ':')
  let targetId := (rawValue.dropWhile (· ≠ ':')).tail
  if ':' ∉ rawValue ∨ libraryId = [] ∨ targetId = [] then
    .error (.valueError ("invalid benchmark selector ".toList ++ repr rawValue ++
      "; expected LIBRARY:TARGET".toList))
  else .ok (libraryId, targetId)

/-- `_BENCHMARK_IDENTITIES_BY_TOOL[tool_id]`; a tool without benchmarks has no entry. -/
def benchmarkIdentities (toolId : Text) : List (Text × Text) :=
  (definitions.filter fun d => toolId ∈ d.tools).map BenchmarkDefinition.identity

/-- `supported_tool_ids` -/
def supportedToolIds : List Text := sortTexts (definitions.flatMap fun d => d.tools).dedup

section Membership

local instance lawfulIdentity : LawfulBEq (Text × Text) := inferInstance

/-- One value of `--benchmarks`, without the white space around it. -/
def selectValue (allowed : List (Text × Text)) (selectorText : Text) :
    Except Exc (Text × Text) := do
  let selector ← parseBenchmarkSelector repr selectorText
  if selector ∈ allowed then return selector
  else .error (.valueError ("unknown benchmark '".toList ++ selectorText ++
    "' for --benchmarks".toList))

end Membership

/-- The loop over the values of `--benchmarks`. -/
def selectValues (allowed : List (Text × Text)) : List Text → Except Exc (List (Text × Text))
  | [] => .ok []
  | rawValue :: rest =>
    if strip rawValue = [] then selectValues allowed rest
    else do
      let selector ← selectValue repr allowed (strip rawValue)
      let selected ← selectValues allowed rest
      return selector :: selected

/-- `selected_benchmarks` -/
def selectedBenchmarks (toolId : Text) (benchmarkCsv : Option Text) :
    Except Exc (List (Text × Text)) :=
  let selectors := benchmarkIdentities definitions toolId
  if selectors = [] then
    .error (.valueError ("unknown tool ".toList ++ repr toolId ++ "; expected one of ".toList ++
      join ", ".toList (supportedToolIds definitions)))
  else
    match benchmarkCsv with
    | none | some [] => .ok selectors
    | some (c :: csv) => do
      let selected ← selectValues repr selectors ((c :: csv).splitOn ',')
      if selected = [] then
        .error (.valueError
          "--benchmarks provided but no valid benchmark names were parsed".toList)
      else return selected

/-! ## From the config to the runner (`common.py`, `run_experiments.py`) -/

/-- The strings of an array. -/
def strings : List Value → Option (List Text)
  | [] => some []
  | .str s :: rest => (strings rest).map (s :: ·)
  | _ :: _ => none

/-- `benchmark_csv_from_config` -/
def benchmarkCsvFromConfig (value : Value) (label : Text) : Except Exc (Option Text) :=
  let invalid := Exc.valueError (label ++ " must be a string or array of strings".toList)
  match value with
  | .null => .ok none
  | .str s => .ok (if s = [] then none else some s)
  | .list [] => .ok none
  | .list (x :: xs) =>
    match strings (x :: xs) with
    | some names => .ok (some (join [','] names))
    | none => .error invalid
  | _ => .error invalid

/-- `a or b` for two optional texts. -/
def orCsv (csv other : Option Text) : Option Text :=
  match csv with
  | none | some [] => other
  | some (c :: text) => some (c :: text)

/-- `benchmark_csv` of a tool: its own value, or the one for all tools. -/
def campaignCsv (toolId : Text) (own all : Value) : Except Exc (Option Text) := do
  let shared ← benchmarkCsvFromConfig all "benchmarks.all".toList
  let csv ← benchmarkCsvFromConfig own ("benchmarks.".toList ++ toolId)
  return orCsv csv shared

/-- What a campaign does for a tool: the selection it has checked, and the value it passes on. -/
def campaignSelection (toolId : Text) (own all : Value) :
    Except Exc (List (Text × Text) × Option Text) := do
  let benchmarkCsv ← campaignCsv toolId own all
  let normalized ← selectedBenchmarks repr definitions toolId benchmarkCsv
  return (normalized, benchmarkCsv.map fun _ =>
    join [','] (normalized.map formatBenchmarkSelector))

/-- What the runner selects: `build_worker_argv` passes a value that is not empty, and the runner
reads `--benchmarks` from it. -/
def runnerSelection (toolId : Text) (benchmarkCsv : Option Text) :
    Except Exc (List (Text × Text)) :=
  selectedBenchmarks repr definitions toolId (orCsv benchmarkCsv none)

end Selectors

/-! ## What is accepted -/

section Accepted

variable {repr : Text → Text} {definitions : List BenchmarkDefinition}

/-- A selector is read back: its library is not empty and has no colon, and its target is not
empty. -/
structure Readable (p : Text × Text) : Prop where
  library : p.1 ≠ []
  colon : ':' ∉ p.1
  target : p.2 ≠ []

theorem takeWhile_selector {p : Text × Text} (h : ':' ∉ p.1) :
    (formatBenchmarkSelector p).takeWhile (· ≠ ':') = p.1 ∧
      (formatBenchmarkSelector p).dropWhile (· ≠ ':') = ':' :: p.2 := by
  have hlibrary : ∀ c ∈ p.1, decide (c ≠ ':') = true := fun c hc =>
    decide_eq_true fun heq => h (heq ▸ hc)
  rw [formatBenchmarkSelector, List.takeWhile_append_of_pos hlibrary,
    List.dropWhile_append_of_pos hlibrary, List.takeWhile_cons, List.dropWhile_cons]
  simp

/-- A value is read as a selector exactly if it is one that can be read back. -/
theorem parse_eq_ok_iff {value : Text} {p : Text × Text} :
    parseBenchmarkSelector repr value = .ok p ↔ value = formatBenchmarkSelector p ∧ Readable p := by
  constructor
  · intro h
    rw [parseBenchmarkSelector] at h
    split at h
    · cases h
    · next hvalid =>
      rw [not_or, not_or, not_not] at hvalid
      obtain ⟨hcolon, hlibrary, htarget⟩ := hvalid
      obtain rfl := Except.ok.inj h
      have hfree : ':' ∉ value.takeWhile (· ≠ ':') := fun hmem => by
        simpa using List.mem_takeWhile_imp hmem
      refine ⟨?_, hlibrary, hfree, htarget⟩
      have hsplit := List.takeWhile_append_dropWhile (p := (· ≠ ':')) (l := value)
      obtain ⟨c, tail, htail⟩ : ∃ c tail, value.dropWhile (· ≠ ':') = c :: tail := by
        cases hdrop : value.dropWhile (· ≠ ':') with
        | nil =>
          rw [hdrop, List.append_nil] at hsplit
          rw [hsplit] at hfree
          exact absurd hcolon hfree
        | cons c tail => exact ⟨c, tail, rfl⟩
      have hhead : c = ':' := by
        have hne : value.dropWhile (· ≠ ':') ≠ [] := by
          rw [htail]
          exact List.cons_ne_nil _ _
        have hnot := List.head_dropWhile_not _ hne
        simp only [htail, List.head_cons] at hnot
        simpa using hnot
      subst hhead
      rw [htail] at hsplit
      rw [formatBenchmarkSelector, htail, List.tail_cons]
      exact hsplit.symm
  · rintro ⟨rfl, hlibrary, hcolon, htarget⟩
    obtain ⟨htake, hdrop⟩ := takeWhile_selector hcolon
    rw [parseBenchmarkSelector]
    simp only [htake, hdrop, List.tail_cons]
    rw [if_neg]
    rw [not_or, not_or, not_not]
    exact ⟨List.mem_append_right _ List.mem_cons_self, hlibrary, htarget⟩

theorem selectValue_eq_ok_iff {allowed : List (Text × Text)} {value : Text} {p : Text × Text} :
    selectValue repr allowed value = .ok p ↔
      value = formatBenchmarkSelector p ∧ p ∈ allowed ∧ Readable p := by
  rw [selectValue, Sequence.bind_eq_ok_iff]
  constructor
  · rintro ⟨q, hq, h⟩
    obtain ⟨hvalue, hreadable⟩ := parse_eq_ok_iff.mp hq
    split at h
    · next hallowed =>
      obtain rfl := Except.ok.inj h
      exact ⟨hvalue, hallowed, hreadable⟩
    · cases h
  · rintro ⟨hvalue, hallowed, hreadable⟩
    exact ⟨p, parse_eq_ok_iff.mpr ⟨hvalue, hreadable⟩, if_pos hallowed⟩

/-- The values that are not blank. -/
def named (values : List Text) : List Text := (values.map strip).filter (· ≠ [])

theorem named_cons (value : Text) (rest : List Text) :
    named (value :: rest) = if strip value = [] then named rest else strip value :: named rest := by
  rw [named, List.map_cons, List.filter_cons]
  split
  · next h => rw [if_neg (of_decide_eq_true h)]; rfl
  · next h => rw [if_pos (by simpa using h)]; rfl

/-- The values are accepted exactly if each that is not blank is the selector of an allowed
benchmark, and then these are selected, in their order. -/
theorem selectValues_eq_ok_iff {allowed : List (Text × Text)} {values : List Text}
    {selected : List (Text × Text)} :
    selectValues repr allowed values = .ok selected ↔
      named values = selected.map formatBenchmarkSelector ∧
        ∀ p ∈ selected, p ∈ allowed ∧ Readable p := by
  induction values generalizing selected with
  | nil =>
    rw [selectValues, Except.ok.injEq]
    constructor
    · rintro rfl
      exact ⟨rfl, fun p hp => absurd hp List.not_mem_nil⟩
    · rintro ⟨hnames, -⟩
      exact (List.map_eq_nil_iff.mp hnames.symm).symm
  | cons value rest ih =>
    rw [selectValues, named_cons]
    split
    · exact ih
    · rw [Sequence.bind_eq_ok_iff]
      constructor
      · rintro ⟨p, hp, h⟩
        obtain ⟨more, hmore, h⟩ := Sequence.bind_eq_ok_iff.mp h
        obtain rfl := Except.ok.inj h
        obtain ⟨hvalue, hallowed⟩ := selectValue_eq_ok_iff.mp hp
        obtain ⟨hnames, hall⟩ := ih.mp hmore
        exact ⟨by rw [List.map_cons, hvalue, hnames], List.forall_mem_cons.mpr ⟨hallowed, hall⟩⟩
      · rintro ⟨hnames, hall⟩
        cases selected with
        | nil => cases hnames
        | cons p more =>
          obtain ⟨hvalue, hnames⟩ := List.cons.inj hnames
          obtain ⟨hallowed, hall⟩ := List.forall_mem_cons.mp hall
          refine ⟨p, selectValue_eq_ok_iff.mpr ⟨hvalue, hallowed⟩, ?_⟩
          rw [Sequence.bind_eq_ok_iff]
          exact ⟨more, ih.mpr ⟨hnames, hall⟩, rfl⟩

/-! ## What is passed on -/

/-- A selector that stands in a list of selectors: it has no comma, and no white space around. -/
structure Plain (p : Text × Text) : Prop extends Readable p where
  comma : ',' ∉ formatBenchmarkSelector p
  stripped : strip (formatBenchmarkSelector p) = formatBenchmarkSelector p

theorem format_ne_nil (p : Text × Text) : formatBenchmarkSelector p ≠ [] :=
  List.append_ne_nil_of_right_ne_nil _ (List.cons_ne_nil _ _)

/-- What is selected by a value is plain. -/
theorem plain_of_named {csv : Text} {selected : List (Text × Text)}
    (h : named (csv.splitOn ',') = selected.map formatBenchmarkSelector) {p : Text × Text}
    (hp : p ∈ selected) (hreadable : Readable p) : Plain p := by
  have hmem : formatBenchmarkSelector p ∈ named (csv.splitOn ',') := by
    rw [h]
    exact List.mem_map_of_mem hp
  obtain ⟨value, hvalue, hstrip⟩ := List.mem_map.mp (List.mem_filter.mp hmem).1
  refine ⟨hreadable, fun hcomma => ?_, ?_⟩
  · rw [← hstrip] at hcomma
    exact (notMem_of_mem_splitOn hvalue (mem_of_mem_stripped hcomma)).2 rfl
  · rw [← hstrip, strip_strip]

/-- Plain selectors are found again in their list. -/
theorem named_join {selected : List (Text × Text)} (hne : selected ≠ [])
    (h : ∀ p ∈ selected, Plain p) :
    named ((join [','] (selected.map formatBenchmarkSelector)).splitOn ',') =
      selected.map formatBenchmarkSelector := by
  have hsplit : (join [','] (selected.map formatBenchmarkSelector)).splitOn ',' =
      selected.map formatBenchmarkSelector := by
    refine List.splitOn_intercalate ',' (fun value hvalue => ?_) (by simpa using hne)
    obtain ⟨p, hp, rfl⟩ := List.mem_map.mp hvalue
    exact (h p hp).comma
  have hstrip : (selected.map formatBenchmarkSelector).map strip =
      selected.map formatBenchmarkSelector := by
    rw [List.map_map]
    exact List.map_congr_left fun p hp => (h p hp).stripped
  rw [hsplit, named, hstrip]
  refine List.filter_eq_self.mpr fun value hvalue => ?_
  obtain ⟨p, -, rfl⟩ := List.mem_map.mp hvalue
  exact decide_eq_true (format_ne_nil p)

theorem join_ne_nil {selected : List (Text × Text)} (hne : selected ≠ []) :
    join [','] (selected.map formatBenchmarkSelector) ≠ [] := by
  obtain ⟨p, rest, rfl⟩ := List.exists_cons_of_ne_nil hne
  cases rest with
  | nil => simpa [join] using format_ne_nil p
  | cons q rest =>
    rw [join, List.map_cons, List.map_cons, List.intercalate_cons_cons]
    exact List.append_ne_nil_of_left_ne_nil
      (List.append_ne_nil_of_left_ne_nil (format_ne_nil p) _) _

/-- A selection by a value. -/
theorem selected_eq_ok_iff {toolId csv : Text} (hcsv : csv ≠ []) {selected : List (Text × Text)} :
    selectedBenchmarks repr definitions toolId (some csv) = .ok selected ↔
      selected ≠ [] ∧ named (csv.splitOn ',') = selected.map formatBenchmarkSelector ∧
        ∀ p ∈ selected, p ∈ benchmarkIdentities definitions toolId ∧ Readable p := by
  obtain ⟨c, csv, rfl⟩ := List.exists_cons_of_ne_nil hcsv
  rw [← @selectValues_eq_ok_iff repr, selectedBenchmarks]
  split
  · next hnone =>
    constructor
    · intro h
      cases h
    · rintro ⟨hne, h⟩
      obtain ⟨p, hp⟩ := List.exists_mem_of_ne_nil _ hne
      have hmem := ((selectValues_eq_ok_iff.mp h).2 p hp).1
      rw [hnone] at hmem
      cases hmem
  · rw [Sequence.bind_eq_ok_iff]
    constructor
    · rintro ⟨found, hfound, h⟩
      split at h
      · cases h
      · next hne =>
        obtain rfl := Except.ok.inj h
        exact ⟨hne, hfound⟩
    · rintro ⟨hne, h⟩
      exact ⟨selected, h, if_neg hne⟩

/-- The selection without a value. -/
theorem selected_all {toolId : Text} {csv : Option Text} (hcsv : csv = none ∨ csv = some [])
    {selected : List (Text × Text)} :
    selectedBenchmarks repr definitions toolId csv = .ok selected ↔
      selected ≠ [] ∧ selected = benchmarkIdentities definitions toolId := by
  have hall : selectedBenchmarks repr definitions toolId csv =
      if benchmarkIdentities definitions toolId = [] then
        .error (.valueError ("unknown tool ".toList ++ repr toolId ++
          "; expected one of ".toList ++ join ", ".toList (supportedToolIds definitions)))
      else .ok (benchmarkIdentities definitions toolId) := by
    rcases hcsv with rfl | rfl <;> rfl
  rw [hall]
  split
  · next hnone =>
    constructor
    · intro h
      cases h
    · rintro ⟨hne, rfl⟩
      exact absurd hnone hne
  · next hne =>
    rw [Except.ok.injEq]
    constructor
    · rintro rfl
      exact ⟨hne, rfl⟩
    · rintro ⟨-, rfl⟩
      rfl

/-- The list of a selection selects it again exactly if its selectors are plain. -/
theorem selected_again_iff {toolId : Text} {selected : List (Text × Text)} (hne : selected ≠ [])
    (hallowed : ∀ p ∈ selected, p ∈ benchmarkIdentities definitions toolId) :
    selectedBenchmarks repr definitions toolId
        (some (join [','] (selected.map formatBenchmarkSelector))) = .ok selected ↔
      ∀ p ∈ selected, Plain p := by
  rw [selected_eq_ok_iff (join_ne_nil hne)]
  constructor
  · rintro ⟨-, hnames, hall⟩ p hp
    exact plain_of_named hnames hp (hall p hp).2
  · intro hplain
    exact ⟨hne, named_join hne hplain, fun p hp => ⟨hallowed p hp, (hplain p hp).toReadable⟩⟩

/-! ### The registry -/

theorem nodup_addDefinitions {file : Text} {seen more all : List BenchmarkDefinition}
    (hseen : (seen.map BenchmarkDefinition.identity).Nodup)
    (h : addDefinitions file seen more = .ok all) :
    (all.map BenchmarkDefinition.identity).Nodup := by
  induction more generalizing seen with
  | nil =>
    obtain rfl := Except.ok.inj h
    exact hseen
  | cons d rest ih =>
    rw [addDefinitions] at h
    split at h
    · cases h
    · next hnew =>
      refine ih ?_ h
      rw [List.map_append, List.nodup_append']
      exact ⟨hseen, List.nodup_singleton _, fun i hi hlast =>
        hnew (List.mem_singleton.mp hlast ▸ hi)⟩

theorem nodup_addTables {file : Text} {seen all : List BenchmarkDefinition} {index : Nat}
    {tables : List Value} (hseen : (seen.map BenchmarkDefinition.identity).Nodup)
    (h : addTables file seen index tables = .ok all) :
    (all.map BenchmarkDefinition.identity).Nodup := by
  induction tables generalizing seen index with
  | nil =>
    obtain rfl := Except.ok.inj h
    exact hseen
  | cons raw rest ih =>
    rw [addTables] at h
    obtain ⟨table, -, h⟩ := Sequence.bind_eq_ok_iff.mp h
    split at h
    · cases h
    · obtain ⟨definitions, -, h⟩ := Sequence.bind_eq_ok_iff.mp h
      obtain ⟨next, hnext, h⟩ := Sequence.bind_eq_ok_iff.mp h
      exact ih (nodup_addDefinitions hseen hnext) h

/-- A registry that loads has no benchmark twice. -/
theorem nodup_loadRegistry {directory : Text} {files : List (Text × Table)}
    {definitions : List BenchmarkDefinition} (h : loadRegistry directory files = .ok definitions) :
    (definitions.map BenchmarkDefinition.identity).Nodup := by
  obtain ⟨all, hall, h⟩ := Sequence.bind_eq_ok_iff.mp h
  split at h
  · cases h
  · obtain rfl := Except.ok.inj h
    have hfiles : ∀ (files : List (Text × Table)) (seen all : List BenchmarkDefinition),
        (seen.map BenchmarkDefinition.identity).Nodup → addFiles seen files = .ok all →
          (all.map BenchmarkDefinition.identity).Nodup := by
      intro files
      induction files with
      | nil =>
        intro seen all hseen h
        obtain rfl := Except.ok.inj h
        exact hseen
      | cons file rest ih =>
        intro seen all hseen h
        rw [addFiles] at h
        obtain ⟨benchmarks, -, h⟩ := Sequence.bind_eq_ok_iff.mp h
        obtain ⟨next, hnext, h⟩ := Sequence.bind_eq_ok_iff.mp h
        exact ih next all (nodup_addTables hseen hnext) h
    exact hfiles _ [] all List.nodup_nil hall

/-- A benchmark of a tool has its definition in the registry. -/
theorem definition_of_identity
    (hnodup : (definitions.map BenchmarkDefinition.identity).Nodup) {toolId : Text}
    {p : Text × Text} (hp : p ∈ benchmarkIdentities definitions toolId) :
    ∃ d ∈ definitions, definition repr definitions p.1 p.2 = .ok d ∧ d.identity = p ∧
      toolId ∈ d.tools := by
  obtain ⟨d, hd, rfl⟩ := List.mem_map.mp hp
  obtain ⟨hd, htool⟩ := List.mem_filter.mp hd
  refine ⟨d, hd, ?_, rfl, of_decide_eq_true htool⟩
  have hfound : definitions.find? (fun e => e.identity = (d.identity.1, d.identity.2)) = some d := by
    obtain ⟨e, he⟩ := Option.isSome_iff_exists.mp
      (List.find?_isSome.mpr ⟨d, hd, decide_eq_true rfl⟩ :
        (definitions.find? fun e => e.identity = (d.identity.1, d.identity.2)).isSome)
    have hidentity : e.identity = d.identity := by simpa using List.find?_some he
    rw [he, List.inj_on_of_nodup_map hnodup (List.mem_of_find?_eq_some he) hd hidentity]
  rw [definition, hfound]

end Accepted

/-- What a campaign has checked for a tool reaches its runners: in every registry that loads and
for every value in the config, the runner selects the same benchmarks in the same order, and each
has a definition that supports the tool. The one exception is a value such as `[""]`: it stands for
all benchmarks, and they are all passed on, which goes well exactly if their selectors are plain. -/
theorem selection_reaches_runner (repr : Text → Text) {directory : Text}
    {files : List (Text × Table)} {definitions : List BenchmarkDefinition}
    (hload : loadRegistry directory files = .ok definitions) {toolId : Text} {own all : Value}
    {normalized : List (Text × Text)} {csv : Option Text}
    (h : campaignSelection repr definitions toolId own all = .ok (normalized, csv)) :
    (runnerSelection repr definitions toolId csv = .ok normalized ↔
      (campaignCsv toolId own all = .ok (some []) →
        ∀ p ∈ benchmarkIdentities definitions toolId, Plain p)) ∧
    ∀ p ∈ normalized, ∃ d ∈ definitions, definition repr definitions p.1 p.2 = .ok d ∧
      d.identity = p ∧ toolId ∈ d.tools := by
  obtain ⟨benchmarkCsv, hcsv, h⟩ := Sequence.bind_eq_ok_iff.mp h
  obtain ⟨found, hfound, h⟩ := Sequence.bind_eq_ok_iff.mp h
  obtain ⟨rfl, rfl⟩ := Prod.mk.inj (Except.ok.inj h)
  have hdefined : ∀ hallowed : (∀ p ∈ found, p ∈ benchmarkIdentities definitions toolId),
      ∀ p ∈ found, ∃ d ∈ definitions, definition repr definitions p.1 p.2 = .ok d ∧
        d.identity = p ∧ toolId ∈ d.tools := fun hallowed p hp =>
    definition_of_identity (nodup_loadRegistry hload) (hallowed p hp)
  have hpassed : ∀ csv : Text, orCsv (some csv) none = if csv = [] then none else some csv := by
    intro csv
    cases csv <;> rfl
  rw [hcsv, runnerSelection]
  rcases benchmarkCsv with _ | ⟨_ | ⟨c, text⟩⟩
  · -- nothing is named, and nothing passed on
    obtain ⟨hne, hall⟩ := (selected_all (.inl rfl)).mp hfound
    refine ⟨iff_of_true hfound fun h => (by cases h), hdefined fun p hp => hall ▸ hp⟩
  · obtain ⟨hne, hall⟩ := (selected_all (.inr rfl)).mp hfound
    refine ⟨?_, hdefined fun p hp => hall ▸ hp⟩
    rw [Option.map_some, hpassed, if_neg (join_ne_nil hne),
      selected_again_iff hne fun p hp => hall ▸ hp, hall]
    exact ⟨fun h _ => h, fun h => h rfl⟩
  · obtain ⟨hne, hnames, hall⟩ := (selected_eq_ok_iff (List.cons_ne_nil _ _)).mp hfound
    refine ⟨iff_of_true ?_ fun h => (by cases h), hdefined fun p hp => (hall p hp).1⟩
    rw [Option.map_some, hpassed, if_neg (join_ne_nil hne),
      selected_again_iff hne fun p hp => (hall p hp).1]
    exact fun p hp => plain_of_named hnames hp (hall p hp).2

/-- One benchmark of two, with white space around it. -/
theorem selection_reaches_runner_libg :
    ∃ normalized csv, campaignSelection id twoDefinitions "klee_cf".toList
        (.str " libg:des ,".toList) .null = .ok (normalized, csv) ∧
      normalized = [("libg".toList, "des".toList)] ∧
      runnerSelection id twoDefinitions "klee_cf".toList csv = .ok normalized := by
  have hselected : campaignSelection id twoDefinitions "klee_cf".toList
      (.str " libg:des ,".toList) .null =
        .ok ([("libg".toList, "des".toList)], some "libg:des".toList) := rfl
  refine ⟨_, _, hselected, rfl, ?_⟩
  refine (selection_reaches_runner id loadRegistry_twoLibraries hselected).1.mpr fun h => ?_
  cases h

end KleeDeps.Shared

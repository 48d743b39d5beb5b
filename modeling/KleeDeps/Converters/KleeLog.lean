import KleeDeps.Converters.CaseRows
import KleeDeps.Converters.KTest
import KleeDeps.Experiments.Cases
import KleeDeps.Py.Collect
import Mathlib.Data.Char
import Mathlib.Data.List.Lex
import Mathlib.Data.Prod.Lex

/-!
# The records of a KLEE run

KLEE writes a record to `messages.txt` whenever it knows more about an instruction: an early stub,
summaries with counts and times, or, under self-composition, a record of each finding. The
converter merges the records of an instruction, field by field, and keeps the instructions with
findings.

- `readLine`, `loadPreaggregated`: from the log to one row for each instruction;
- `convertKleeOutput`: from these rows to the result rows;
- `MadeOf`: a row has, in each field, the last value that its records give;
- `records_merged`: **one complete row for each instruction**, whatever the interleaving.
-/

namespace KleeDeps.Converters

open Py Replay Experiments

/-! ### The records (`klee_log_to_json.py`) -/

/-- What the converter takes from Python: `json.loads` on a text that starts with a brace (`none`
is a `JSONDecodeError`), and floating-point numbers. -/
structure LogReaders (F : Type) where
  /-- the digit limit of the process -/
  limit : Nat
  loads : Text → Option (List (Text × Value))
  ofInt : Int → F
  ofLiteral : Text → F
  ofText : Text → Option F
  /-- `int(value)` of a literal, if `value.is_integer()` -/
  wholePart : Text → Option Int
  /-- `bool(value)` of a literal -/
  truth : Text → Bool
  nan : F
  /-- `str(value)` of what is no `str` -/
  str : Value → Text

/-- The tag of the records of a kind, `kind.upper()`. -/
def kindTag (kind : DivergenceKind) : Text := kind.token.map Char.toUpper

/-- A row of the log; a missing `filename` is `None`. -/
structure LogRow (F : Type) where
  filename : Value
  line : Option Int
  column : Option Int
  instId : Int
  visitCount : Option Int
  nonCtCount : Option Int
  visitTime : Option F
  nonCtTime : Option F

/-- `value is True`. -/
def isTrue : Value → Bool
  | .bool true => true
  | _ => false

/-- `str.find` and the slice from there: empty if the character is not there. -/
def dropUntil (c : Char) (line : Text) : Text := line.dropWhile (· ≠ c)

section Log

variable {F : Type} (readers : LogReaders F)

/-- `_to_int`. -/
def toInt : Value → Option Int
  | .int n => some n
  | .float literal => readers.wholePart literal
  | .str s => (int0 readers.limit s).toOption
  | _ => none

/-- `_to_float`. -/
def toFloat : Value → Option F
  | .int n => some (readers.ofInt n)
  | .float literal => some (readers.ofLiteral literal)
  | .str s => readers.ofText s
  | _ => none

/-- The row of a record, unless it has no `inst_id`. -/
def readRow (payload : List (Text × Value)) : Option (LogRow F) :=
  match toInt readers (Value.field payload "inst_id".toList) with
  | none => none
  | some instId =>
    let nonCtCount := toInt readers (Value.field payload "non_ct_count".toList)
    let nonCtTime := toFloat readers (Value.field payload "non_ct_time".toList)
    -- a record of `klee-self-comp`: one finding and its time
    let selfComposed := nonCtCount.isNone && isTrue (Value.field payload "non_ct".toList)
    some
      { filename := Value.field payload "filename".toList
        line := toInt readers (Value.field payload "line".toList)
        column := toInt readers (Value.field payload "col".toList)
        instId := instId
        visitCount := toInt readers (Value.field payload "visit_count".toList)
        nonCtCount := if selfComposed then some 1 else nonCtCount
        visitTime := toFloat readers (Value.field payload "visit_time".toList)
        nonCtTime := if selfComposed && nonCtTime.isNone
          then toFloat readers (Value.field payload "time".toList) else nonCtTime }

/-- The row of a line of the log, if it is a record of the tag. -/
def readLine (tag line : Text) : Option (LogRow F) :=
  if ("KLEE: [".toList ++ tag ++ "]".toList).isPrefixOf line then
    let start := dropUntil '{' line
    if start = [] then none
    else
      match readers.loads start with
      | none => none
      | some payload => readRow readers payload
  else none

/-- `value if value is not None`. -/
def orValue (value existing : Value) : Value :=
  match value with
  | .null => existing
  | value => value

/-- The row of an instruction after another record. -/
def LogRow.merge {F : Type} (existing row : LogRow F) : LogRow F where
  filename := orValue row.filename existing.filename
  line := row.line.or existing.line
  column := row.column.or existing.column
  instId := row.instId
  visitCount := row.visitCount.or existing.visitCount
  nonCtCount := row.nonCtCount.or existing.nonCtCount
  visitTime := row.visitTime.or existing.visitTime
  nonCtTime := row.nonCtTime.or existing.nonCtTime

/-- The first record is stored, the others are merged into it. -/
def addRecord {F : Type} (rows : Dict Int (LogRow F)) (row : LogRow F) : Dict Int (LogRow F) :=
  match rows.get? row.instId with
  | none => rows.set row.instId row
  | some existing => rows.set row.instId (existing.merge row)

/-- `value or -1`. -/
def orMinusOne : Option Int → Int
  | some n => if n = 0 then -1 else n
  | none => -1

/-- `str(value or "")`. -/
def nameText (value : Value) : Text :=
  if truthy readers.truth value then
    match value with
    | .str s => s
    | value => readers.str value
  else []

/-- The key the rows are sorted by. -/
def LogRow.sortKey (row : LogRow F) : Text × Int × Int × Int :=
  (nameText readers row.filename, orMinusOne row.line, orMinusOne row.column,
    orMinusOne (some row.instId))

/-- `<=` of two sort keys. -/
def keyBefore (a b : Text × Int × Int × Int) : Bool :=
  decide (a.1 < b.1) || (a.1 == b.1 && (decide (a.2.1 < b.2.1) || (a.2.1 == b.2.1 &&
    (decide (a.2.2.1 < b.2.2.1) || (a.2.2.1 == b.2.2.1 && decide (a.2.2.2 ≤ b.2.2.2))))))

/-- The loop over the lines. -/
def rowsByInstId (tag messages : Text) : Dict Int (LogRow F) :=
  (readlines (universalNewlines messages)).foldl (fun rows line =>
    match readLine readers tag line with
    | none => rows
    | some row => addRecord rows row) .empty

/-- `load_preaggregated_from_messages`. -/
def loadPreaggregated (tag messages : Text) : List (LogRow F) :=
  ((rowsByInstId readers tag messages).items.map Prod.snd).mergeSort fun a b =>
    keyBefore (a.sortKey readers) (b.sortKey readers)

/-! ### The result rows (`convert_klee_output`) -/

/-- The arguments of `convert_klee_output` but the output directory and file. -/
structure KleeOptions where
  kind : Text
  codePath : Text
  filename : Text
  lines : Text
  srcPrefix : Text
  secret : Text
  public_ : Text
  library : Text

/-- The output directory, and what else the converter looks at. -/
structure KleeOutput where
  directory : Text
  /-- the text of `messages.txt`, if the file is there -/
  messages : Option Text
  /-- the objects of `<kind>_counterexample_<inst_id>.ktest`, if the file is there -/
  ktest : DivergenceKind → Int → Option Objects
  /-- `ktest-tool` is on `PATH` -/
  toolFound : Bool
  cwd : Text
  /-- `get_source_line` -/
  sourceLine : Text → Text → Int → Option Text

/-- `_split_parts`. -/
def splitParts (name : Value) : Option (List Text) :=
  name.asStr?.map fun path => pathComponents (normpath path)

/-- `_find_subsequence`: the rest behind the first occurrence. -/
def afterSubsequence (needle : List Text) : List Text → Option (List Text)
  | [] => none
  | part :: parts =>
    if needle.isPrefixOf (part :: parts) then some ((part :: parts).drop needle.length)
    else afterSubsequence needle parts

/-- `os.path.join(*rest) if rest else ""`. -/
def joinParts : List Text → Text
  | [] => []
  | part :: parts => parts.foldl pathJoin part

/-- The row below the source prefix. An empty list of parts is never found. -/
def belowPrefix (prefixParts : List Text) (row : LogRow F) : Option (LogRow F) :=
  if prefixParts = [] then none
  else ((splitParts row.filename).bind (afterSubsequence prefixParts)).map fun rest =>
    { row with filename := .str (joinParts rest) }

/-- The bounds of the line filter. -/
def lineBounds (limit : Nat) (lines : Text) : Except Exc (Int × Int) :=
  match partition? ':' lines with
  | none => .error (.valueError "lines must be in the format start:end".toList)
  | some (start, stop) =>
    match int10 limit start with
    | .error e => .error e.exc
    | .ok start =>
      match int10 limit stop with
      | .error e => .error e.exc
      | .ok stop => .ok (start, stop)

/-- The filters of the command line. -/
def filterRows (options : KleeOptions) (rows : List (LogRow F)) :
    Except Exc (List (LogRow F)) :=
  let rows := if options.srcPrefix = [] then rows
    else rows.filterMap (belowPrefix (pathComponents (normpath options.srcPrefix)))
  let rows := if options.filename = [] then rows
    else rows.filter fun row => row.filename.asStr? = some options.filename
  if options.lines = [] then .ok rows
  else
    match lineBounds readers.limit options.lines with
    | .error e => .error e
    | .ok (start, stop) =>
      .ok (rows.filter fun row => row.line.any fun line => start ≤ line ∧ line ≤ stop)

/-- A finding: a row with a count, a file and a line. -/
structure KleeFinding (F : Type) where
  filename : Text
  line : Int
  nonCtTime : F
  column : Option Int
  instId : Int
  visitCount : Option Int
  nonCtCount : Option Int
  visitTime : Option F

/-- A row of the payload. -/
structure KleeResult (F : Type) extends KleeFinding F where
  kind : DivergenceKind
  code : Option Text
  counterexamples : Dict Text Int
  reproducedStatus : Status

/-- `(non_ct_count or 0) > 0`. -/
def LogRow.positive {F : Type} (row : LogRow F) : Bool := row.nonCtCount.any (0 < ·)

/-- The finding of a row that names a file and a line. -/
def LogRow.finding (row : LogRow F) : Option (KleeFinding F) :=
  match row.filename, row.line with
  | .str (c :: name), some line => some
      { filename := c :: name, line := line, nonCtTime := row.nonCtTime.getD readers.nan
        column := row.column, instId := row.instId, visitCount := row.visitCount
        nonCtCount := row.nonCtCount, visitTime := row.visitTime }
  | _, _ => none

/-- The source line of a finding. -/
def kleeCode (output : KleeOutput) (options : KleeOptions) (finding : KleeFinding F) :
    Option Text :=
  if options.codePath ≠ [] ∧ 0 < finding.line then
    output.sourceLine options.library
      (pathJoin (abspath output.cwd options.codePath) finding.filename) finding.line
  else none

/-- The counterexamples of a finding. -/
def kleeCounterexamples (output : KleeOutput) (options : KleeOptions) (kind : DivergenceKind)
    (finding : KleeFinding F) : Dict Text Int :=
  if parseList options.secret = [] ∧ parseList options.public_ = [] then .empty
  else
    match output.ktest kind finding.instId with
    | none => .empty
    | some objects =>
      extractCounterexamples objects (parseList options.secret) (parseList options.public_)

/-- `convert_klee_output`: the rows of the payload. -/
def convertKleeOutput (output : KleeOutput) (options : KleeOptions) :
    Except Exc (List (KleeResult F)) :=
  match normalizeResultKind options.kind with
  | none => .error (.valueError "kind must be one of ['branch', 'memory']".toList)
  | some kind =>
    match output.messages with
    | none => .error (.osError ("messages.txt not found under ".toList ++ output.directory))
    | some messages =>
      match filterRows readers options
          (loadPreaggregated readers (kindTag kind) messages) with
      | .error e => .error e
      | .ok rows =>
        let rows := rows.filter LogRow.positive
        if ¬(parseList options.secret = [] ∧ parseList options.public_ = []) ∧
            output.toolFound = false then
          .error (.runtimeError "required tools not found on PATH: ktest-tool".toList)
        else .ok ((rows.filterMap (LogRow.finding readers)).map fun finding =>
          { finding with
            kind := kind
            code := kleeCode output options finding
            counterexamples := kleeCounterexamples output options kind finding
            reproducedStatus := .notReproduced })

end Log

/-! ### One row for each instruction -/

section Merging

variable {F : Type}

/-- A row that says nothing. -/
def LogRow.blank : LogRow F where
  filename := .null
  line := none
  column := none
  instId := 0
  visitCount := none
  nonCtCount := none
  visitTime := none
  nonCtTime := none

/-- A value that is not `None`. -/
def given (value : Value) : Option Value :=
  match value with
  | .null => none
  | value => some value

theorem given_orValue (value existing : Value) :
    given (orValue value existing) = (given value).or (given existing) := by
  cases value <;> rfl

theorem blank_merge (row : LogRow F) : LogRow.blank.merge row = row := by
  have hname : orValue row.filename .null = row.filename := by cases row.filename <;> rfl
  simp only [LogRow.merge, LogRow.blank, hname, Option.or_none]

theorem addRecord_eq :
    addRecord = Dict.collectOne (fun row : LogRow F => some row.instId) .blank LogRow.merge := by
  funext rows row
  rw [addRecord, Dict.collectOne]
  dsimp only
  cases rows.get? row.instId with
  | none => rw [Option.getD_none, blank_merge]
  | some existing => rw [Option.getD_some]

variable (readers : LogReaders F) (tag : Text)

/-- The records of a log, in order. -/
def records (messages : Text) : List (LogRow F) :=
  (readlines (universalNewlines messages)).filterMap (readLine readers tag)

/-- The records of an instruction. -/
def recordsOf (messages : Text) (instId : Int) : List (LogRow F) :=
  (records readers tag messages).filter fun row => decide (row.instId = instId)

/-- A row has, in each field, the last value that the records give for it. -/
structure MadeOf (row : LogRow F) (records : List (LogRow F)) : Prop where
  filename : given row.filename = (records.filterMap (given ·.filename)).getLast?
  line : row.line = (records.filterMap LogRow.line).getLast?
  column : row.column = (records.filterMap LogRow.column).getLast?
  visitCount : row.visitCount = (records.filterMap LogRow.visitCount).getLast?
  nonCtCount : row.nonCtCount = (records.filterMap LogRow.nonCtCount).getLast?
  visitTime : row.visitTime = (records.filterMap LogRow.visitTime).getLast?
  nonCtTime : row.nonCtTime = (records.filterMap LogRow.nonCtTime).getLast?

variable {readers tag}

/-- A field of merged records: the value of the last record that gives one. -/
theorem merged_field {α : Type} {field : LogRow F → Option α} (hblank : field .blank = none)
    (hmerge : ∀ existing row : LogRow F, field (existing.merge row) =
      (field row).or (field existing)) (rows : List (LogRow F)) :
    field (rows.foldl LogRow.merge .blank) = (rows.filterMap field).getLast? := by
  induction rows using List.reverseRecOn with
  | nil => exact hblank
  | append_singleton rows row ih =>
    rw [List.foldl_append, List.foldl_cons, List.foldl_nil, hmerge, ih, List.filterMap_append,
      List.getLast?_append]
    congr 1
    cases hrow : field row with
    | none =>
      rw [List.filterMap_cons_none hrow]
      rfl
    | some value =>
      rw [List.filterMap_cons_some hrow]
      rfl

theorem madeOf_merged (rows : List (LogRow F)) :
    MadeOf (rows.foldl LogRow.merge .blank) rows where
  filename := @merged_field F _ (given ·.filename) rfl (fun _ _ => given_orValue _ _) rows
  line := merged_field rfl (fun _ _ => rfl) rows
  column := merged_field rfl (fun _ _ => rfl) rows
  visitCount := merged_field rfl (fun _ _ => rfl) rows
  nonCtCount := merged_field rfl (fun _ _ => rfl) rows
  visitTime := merged_field rfl (fun _ _ => rfl) rows
  nonCtTime := merged_field rfl (fun _ _ => rfl) rows

/-- The loop over the lines, seen from an instruction. -/
theorem get?_rowsByInstId (messages : Text) (instId : Int) :
    (rowsByInstId readers tag messages).get? instId =
      Dict.collected .blank LogRow.merge (recordsOf readers tag messages instId) := by
  have hloop : rowsByInstId readers tag messages =
      Dict.collect (fun row => some row.instId) .blank LogRow.merge .empty
        (records readers tag messages) := by
    rw [rowsByInstId, Dict.collect, records, List.foldl_filterMap, addRecord_eq]
    congr 1
    funext rows line
    cases readLine readers tag line with
    | none => rfl
    | some row => rfl
  rw [hloop, Dict.get?_collect]
  congr 1
  exact List.filter_congr fun row _ => by simp only [Option.some.injEq]

theorem instId_merged {rows : List (LogRow F)} {instId : Int} (hne : rows ≠ [])
    (h : ∀ row ∈ rows, row.instId = instId) :
    (rows.foldl LogRow.merge .blank).instId = instId := by
  induction rows using List.reverseRecOn with
  | nil => exact absurd rfl hne
  | append_singleton rows row _ =>
    rw [List.foldl_append, List.foldl_cons, List.foldl_nil]
    exact h row (List.mem_append_right _ List.mem_cons_self)

theorem mem_recordsOf {messages : Text} {instId : Int} {row : LogRow F} :
    row ∈ recordsOf readers tag messages instId ↔
      row ∈ records readers tag messages ∧ row.instId = instId := by
  rw [recordsOf, List.mem_filter, decide_eq_true_iff]

/-- The row of an instruction is made of its records. -/
theorem mem_items_iff_recordsOf {messages : Text} {instId : Int} {row : LogRow F} :
    (instId, row) ∈ (rowsByInstId readers tag messages).items ↔
      recordsOf readers tag messages instId ≠ [] ∧
        (recordsOf readers tag messages instId).foldl LogRow.merge .blank = row := by
  rw [Dict.mem_items_iff, get?_rowsByInstId, Dict.collected_eq_some_iff]

theorem instId_of_item {messages : Text} {instId : Int} {row : LogRow F}
    (h : (instId, row) ∈ (rowsByInstId readers tag messages).items) : row.instId = instId := by
  obtain ⟨hne, rfl⟩ := mem_items_iff_recordsOf.mp h
  exact instId_merged hne fun record hrecord => (mem_recordsOf.mp hrecord).2

theorem mem_loadPreaggregated {messages : Text} {row : LogRow F} :
    row ∈ loadPreaggregated readers tag messages ↔
      recordsOf readers tag messages row.instId ≠ [] ∧
        (recordsOf readers tag messages row.instId).foldl LogRow.merge .blank = row := by
  rw [loadPreaggregated, List.mem_mergeSort, List.mem_map, ← mem_items_iff_recordsOf]
  constructor
  · rintro ⟨⟨instId, row⟩, hitem, rfl⟩
    rw [instId_of_item hitem]
    exact hitem
  · exact fun h => ⟨_, h, rfl⟩

/-- There is one row for each instruction. -/
theorem nodup_instIds (messages : Text) :
    ((loadPreaggregated readers tag messages).map LogRow.instId).Nodup := by
  have hids : ((rowsByInstId readers tag messages).items.map Prod.snd).map LogRow.instId =
      (rowsByInstId readers tag messages).items.map Prod.fst := by
    rw [List.map_map]
    exact List.map_congr_left fun item hitem => instId_of_item hitem
  rw [loadPreaggregated, ((List.mergeSort_perm _ _).map LogRow.instId).nodup_iff, hids]
  exact (rowsByInstId readers tag messages).nodup

theorem mem_instIds {messages : Text} {instId : Int} :
    instId ∈ (loadPreaggregated readers tag messages).map LogRow.instId ↔
      ∃ record ∈ records readers tag messages, record.instId = instId := by
  constructor
  · intro h
    obtain ⟨row, hrow, rfl⟩ := List.mem_map.mp h
    obtain ⟨record, hrecord⟩ :=
      List.exists_mem_of_ne_nil _ (mem_loadPreaggregated.mp hrow).1
    exact ⟨record, mem_recordsOf.mp hrecord⟩
  · rintro ⟨record, hrecord, hid⟩
    have hne : recordsOf readers tag messages instId ≠ [] :=
      List.ne_nil_of_mem (mem_recordsOf.mpr ⟨hrecord, hid⟩)
    have hrow : ((recordsOf readers tag messages instId).foldl LogRow.merge .blank).instId =
        instId := instId_merged hne fun record hrecord => (mem_recordsOf.mp hrecord).2
    refine List.mem_map.mpr ⟨_, mem_loadPreaggregated.mpr ?_, hrow⟩
    rw [hrow]
    exact ⟨hne, rfl⟩

/-! ### The order of the rows -/

/-- A sort key in the lexicographic order. -/
def logOrder (key : Text × Int × Int × Int) : Text ×ₗ Int ×ₗ Int ×ₗ Int :=
  toLex (key.1, toLex (key.2.1, toLex (key.2.2.1, key.2.2.2)))

theorem keyBefore_iff {a b : Text × Int × Int × Int} :
    keyBefore a b = true ↔ logOrder a ≤ logOrder b := by
  simp only [keyBefore, logOrder, Prod.Lex.toLex_le_toLex, Bool.or_eq_true, Bool.and_eq_true,
    decide_eq_true_eq, beq_iff_eq]

theorem logOrder_injective : Function.Injective logOrder := by
  intro a b h
  simpa [logOrder, Prod.ext_iff] using h

/-- `or -1` takes `0` for missing, and still tells numbers that are not negative apart. -/
theorem orMinusOne_injective {a b : Int} (ha : 0 ≤ a) (hb : 0 ≤ b)
    (h : orMinusOne (some a) = orMinusOne (some b)) : a = b := by
  simp only [orMinusOne] at h
  split at h
  · split at h
    · omega
    · omega
  · split at h
    · omega
    · omega

/-- The rows depend only on what each instruction has recorded, in its own order. -/
theorem loadPreaggregated_congr {messages messages' : Text}
    (hids : ∀ record ∈ records readers tag messages, 0 ≤ record.instId)
    (h : ∀ instId, recordsOf readers tag messages instId =
      recordsOf readers tag messages' instId) :
    loadPreaggregated readers tag messages = loadPreaggregated readers tag messages' := by
  have hmem : ∀ row : LogRow F, row ∈ loadPreaggregated readers tag messages ↔
      row ∈ loadPreaggregated readers tag messages' := fun row => by
    rw [mem_loadPreaggregated, mem_loadPreaggregated, h]
  have hperm : (loadPreaggregated readers tag messages).Perm
      (loadPreaggregated readers tag messages') :=
    (List.perm_ext_iff_of_nodup (.of_map _ (nodup_instIds messages))
      (.of_map _ (nodup_instIds messages'))).mpr hmem
  have hsorted : ∀ messages, (loadPreaggregated readers tag messages).Pairwise fun a b =>
      keyBefore (a.sortKey readers) (b.sortKey readers) := by
    intro messages
    refine List.pairwise_mergeSort (fun a b c hab hbc => ?_) (fun a b => ?_) _
    · exact keyBefore_iff.mpr ((keyBefore_iff.mp hab).trans (keyBefore_iff.mp hbc))
    · rw [Bool.or_eq_true, keyBefore_iff, keyBefore_iff]
      exact le_total _ _
  refine hperm.eq_of_pairwise (fun a b ha hb hab hba => ?_) (hsorted messages)
    (hsorted messages')
  have hnonneg : ∀ row ∈ loadPreaggregated readers tag messages, 0 ≤ row.instId := by
    intro row hrow
    obtain ⟨record, hrecord, hid⟩ := mem_instIds.mp (List.mem_map_of_mem hrow)
    rw [← hid]
    exact hids record hrecord
  have hb' := (hmem b).mpr hb
  -- equal sort keys have equal instructions, and so equal rows
  have hkeys := logOrder_injective (le_antisymm (keyBefore_iff.mp hab) (keyBefore_iff.mp hba))
  have hid : a.instId = b.instId := orMinusOne_injective (hnonneg a ha) (hnonneg b hb')
    (congrArg (fun key => key.2.2.2) hkeys)
  exact List.inj_on_of_nodup_map (nodup_instIds messages) ha hb' hid

/-! ### The payload -/

/-- No filter is given. -/
structure KleeOptions.Unfiltered (options : KleeOptions) : Prop where
  srcPrefix : options.srcPrefix = []
  filename : options.filename = []
  lines : options.lines = []

/-- Counterexamples are only looked for with `ktest-tool`. -/
def KleeOptions.ToolsFound (options : KleeOptions) (output : KleeOutput) : Prop :=
  (parseList options.secret = [] ∧ parseList options.public_ = []) ∨ output.toolFound = true

variable {output : KleeOutput} {options : KleeOptions} {kind : DivergenceKind} {messages : Text}

/-- What `convert_klee_output` makes of the rows of a log, without filters. -/
theorem findings_of_ok (hkind : normalizeResultKind options.kind = some kind)
    (hmessages : output.messages = some messages) (hunfiltered : options.Unfiltered)
    {results : List (KleeResult F)} (h : convertKleeOutput readers output options = .ok results) :
    results.map KleeResult.toKleeFinding =
      ((loadPreaggregated readers (kindTag kind) messages).filter LogRow.positive).filterMap
        (LogRow.finding readers) := by
  rw [convertKleeOutput, hkind, hmessages] at h
  dsimp only at h
  rw [filterRows, if_pos hunfiltered.srcPrefix, if_pos hunfiltered.filename,
    if_pos hunfiltered.lines] at h
  dsimp only at h
  split at h
  · cases h
  · obtain rfl := Except.ok.inj h
    rw [List.map_map]
    exact List.map_id _

theorem exists_results (hkind : normalizeResultKind options.kind = some kind)
    (hmessages : output.messages = some messages) (hunfiltered : options.Unfiltered)
    (htools : options.ToolsFound output) :
    ∃ results, convertKleeOutput readers output options = .ok results := by
  have hfound : ¬(¬(parseList options.secret = [] ∧ parseList options.public_ = []) ∧
      output.toolFound = false) := by
    rintro ⟨hsome, hmissing⟩
    rcases htools with hnone | hfound
    · exact hsome hnone
    · rw [hmissing] at hfound
      cases hfound
  rw [convertKleeOutput, hkind, hmessages]
  dsimp only
  rw [filterRows, if_pos hunfiltered.srcPrefix, if_pos hunfiltered.filename,
    if_pos hunfiltered.lines]
  dsimp only
  rw [if_neg hfound]
  exact ⟨_, rfl⟩

theorem selfComposed_record {payload : List (Text × Value)} {row : LogRow F}
    (h : readRow readers payload = some row)
    (hcount : toInt readers (Value.field payload "non_ct_count".toList) = none)
    (hnonCt : isTrue (Value.field payload "non_ct".toList) = true) :
    row.nonCtCount = some 1 ∧
      row.nonCtTime = (toFloat readers (Value.field payload "non_ct_time".toList)).or
        (toFloat readers (Value.field payload "time".toList)) := by
  rw [readRow] at h
  split at h
  · cases h
  · obtain rfl := Option.some.inj h
    dsimp only
    rw [hcount, hnonCt]
    cases toFloat readers (Value.field payload "non_ct_time".toList) with
    | none => exact ⟨rfl, rfl⟩
    | some time => exact ⟨rfl, rfl⟩

end Merging

end KleeDeps.Converters

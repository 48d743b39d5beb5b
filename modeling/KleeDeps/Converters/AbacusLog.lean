import KleeDeps.Converters.CaseRows

/-!
# Reading an ABACUS log

`convert_abacus_log` walks through the lines of a log with one index. A divergent block and the
search for the source line of an address have a loop of their own, and both move the index of the
outer loop.

- `readBlock`, `findSource`: the inner loops, each with the lines it leaves;
- `stepLine`, `parseAbacusLines`: one round of the outer loop, and all of them; every round leaves
  fewer lines, so that the loop ends;
- `abacusRows`, `convertAbacusLog`: the rows of the payload;
- `opening`: the first letter of a line tells its kind, so that no line is of two kinds.
-/

namespace KleeDeps.Converters

open Py Regex Replay SortedSearch

/-! ### Instructions (`abacus_log_to_json.py`) -/

/-- `_classify_instruction_text`. -/
def classifyInstructionText (text : Text) : Option DivergenceKind :=
  let stripped := strip text
  let mnemonic := (stripped.takeWhile fun c => !isSpace c).map Char.toLower
  let operands := lstrip (stripped.dropWhile fun c => !isSpace c)
  if stripped = [] then none
  else if ['j'] <+: mnemonic ∨ mnemonic ∈ ["call".toList, "callq".toList, "jmp".toList,
      "jmpq".toList, "ret".toList, "retq".toList, "loop".toList, "loope".toList,
      "loopne".toList] then some .branch
  else if mnemonic ∈ ["lea".toList, "leaq".toList, "nop".toList, "nopl".toList, "nopw".toList,
      "endbr32".toList, "endbr64".toList] then none
  else if '(' ∈ operands ∨ '[' ∈ operands then some .memory
  else none

/-- The arguments of `convert_abacus_log`, and what it looks at besides the log. -/
structure AbacusConversion where
  executable : Text
  cwd : Text
  codeRoot : Option Text
  library : Text
  /-- what `_load_abacus_secret_layout` has returned -/
  layout : List AbacusSecret
  /-- `_instruction_text_for_address` on the executable -/
  instructionText : Int → Except Exc Text
  /-- `get_source_line` -/
  sourceLine : Text → Text → Int → Option Text

/-- `_instruction_kind_for_address`. -/
def instructionKind (conv : AbacusConversion) (addr : Int) : Except Exc DivergenceKind :=
  match conv.instructionText addr with
  | .error e => .error e
  | .ok text =>
    match classifyInstructionText text with
    | some kind => .ok kind
    | none => .error (.runtimeError ("could not classify instruction at ".toList ++ hexText addr ++
        " in ".toList ++ abspath conv.cwd conv.executable ++ " as branch or memory: ".toList ++
        text))

/-! ### The lines -/

/-- `(?:r)?`. -/
def optional (r : Regex) : Regex := .alt r (.lit [])

/-- The pattern of a time. -/
def secondsRe (tool : Text) : Regex :=
  .seq (.lit ("Time taken by ".toList ++ (tool ++ [':']))) <| .seq (.many isSpace 0 true) <|
  .seq (.group ['1'] (.seq (.many isDecDigit 1 true)
    (optional (.seq (.lit ['.']) (.many isDecDigit 1 true))))) <|
  .seq (.many isSpace 1 true) <| .seq (.lit "seconds".toList) <| .seq (.many isSpace 0 true) .atEnd

/-- The pattern of the first line of a divergent block. -/
def divergentRe : Regex :=
  .seq (.lit "[Divergent Input]".toList) <| .seq (.many isSpace 1 true) <|
  .seq (.lit "0x".toList) <| .seq (.group ['1'] (.many isHexDigit 1 true)) <|
  .seq (.lit [':']) <| .seq (.many isSpace 0 true) .atEnd

/-- The pattern of a line of a divergent block. -/
def keyRe : Regex :=
  .seq (.many isSpace 0 true) <|
  .seq (.alt (.seq (.lit "Key".toList) (.group "key_index".toList (.many isDecDigit 1 true)))
    (.seq (.lit "InternalID".toList) (.seq (.many isSpace 1 true)
      (.group "internal_id".toList (.many isDecDigit 1 true))))) <|
  .seq (optional (.seq (.many isSpace 1 true) (.seq (.lit "offset=".toList)
    (.group "offset".toList (.many isDecDigit 1 true))))) <|
  .seq (optional (.seq (.many isSpace 1 true) (.seq (.lit "byte_offset=".toList)
    (.group "byte_offset".toList (.many isDecDigit 1 true))))) <|
  .seq (optional (.seq (.many isSpace 1 true) (.seq (.lit "addr=0x".toList)
    (.many isHexDigit 1 true)))) <|
  .seq (.many isSpace 0 true) <| .seq (.lit ['=']) <| .seq (.many isSpace 0 true) <|
  .seq (.group "value".toList (.many isDecDigit 1 true)) <| .seq (.many isSpace 0 true) .atEnd

/-- The pattern of an address. -/
def addressRe (isWord : Char → Bool) : Regex :=
  .seq (.lit "Address:".toList) <| .seq (.many isSpace 0 true) <|
  .seq (.group ['1'] (.many isHexDigit 1 true)) (wordEnd isWord)

/-- The pattern of a source line. -/
def sourceRe : Regex :=
  .seq (.lit "Source code:".toList) <| .seq (.many isSpace 1 true) <|
  .seq (.many (· != ':') 1 true) <| .seq (.lit [':']) <| .seq (.many isSpace 1 true) <|
  .seq (.group ['1'] (.many (· != '\n') 1 false)) <| .seq (.many isSpace 1 true) <|
  .seq (.lit "line number:".toList) <| .seq (.many isSpace 0 true) <|
  .seq (.group ['2'] (.many isDecDigit 1 true)) <|
  .seq (optional (.seq (.many isSpace 1 true) (.seq (.lit "column number:".toList)
    (.seq (.many isSpace 0 true) (.many isDecDigit 1 true))))) <|
  .seq (.many isSpace 0 true) .atEnd

/-- What the parser takes from Python: the digit limit, `\w` and floating-point numbers. -/
structure AbacusReaders (F : Type) where
  limit : Nat
  isWord : Char → Bool
  round : ℚ → F
  add : F → F → F

/-- One line of a divergent block. -/
structure KeyEntry where
  value : Int
  offset : Option Int
  deriving DecidableEq, Repr

/-- An entry of `locations`; `code` is `None` if the key is missing. -/
structure AbacusLocation where
  filename : Text
  line : Int
  code : Option Text
  deriving DecidableEq, Repr

/-- `int(m.group(name))` under the reader of the literal. -/
def intGroup (reader : Text → Except IntError Int) (m : Captures) (name : Text) :
    Except Exc Int :=
  (reader ((get m name).getD [])).mapError IntError.exc

section Lines

variable {F : Type} (readers : AbacusReaders F)

/-- The time of a line, if it is one of the tool. -/
def secondsOf (tool line : Text) : Option (Except Exc F) :=
  (match? (secondsRe tool) line).map fun m => float readers.round ((get m ['1']).getD [])

/-- `m_se`. -/
def seTimeOf (line : Text) : Option (Except Exc F) := secondsOf readers "SE".toList line

/-- `m_qif`. -/
def qifTimeOf (line : Text) : Option (Except Exc F) := secondsOf readers "QIF".toList line

/-- `m_div`. -/
def divergentOf (line : Text) : Option (Except Exc Int) :=
  (match? divergentRe line).map fun m => intGroup int16 m ['1']

/-- `km`. -/
def keyEntryOf (line : Text) : Option (Except Exc KeyEntry) :=
  (match? keyRe line).map fun m => do
    let value ← intGroup (int10 readers.limit) m "value".toList
    let offset ← match (get m "offset".toList).or (get m "key_index".toList) with
      | none => .ok none
      | some text => ((int10 readers.limit text).mapError IntError.exc).map some
    return { value := value, offset := offset }

/-- `m_addr`. -/
def addressOf (line : Text) : Option (Except Exc Int) :=
  (match? (addressRe readers.isWord) line).map fun m => intGroup int16 m ['1']

/-- `m_src`: the path and the line number. -/
def sourceOf (line : Text) : Option (Except Exc (Text × Int)) :=
  (match? sourceRe line).map fun m =>
    (intGroup (int10 readers.limit) m ['2']).map fun lineNo => ((get m ['1']).getD [], lineNo)

/-! ### The loops -/

/-- The loop over the lines of a divergent block, and the lines behind it. -/
def readBlock : List Text → Except Exc (List KeyEntry × List Text)
  | [] => .ok ([], [])
  | line :: rest =>
    if strip line = [] then .ok ([], line :: rest)
    else
      match keyEntryOf readers line with
      | none => .ok ([], line :: rest)
      | some (.error e) => .error e
      | some (.ok entry) =>
        match readBlock rest with
        | .error e => .error e
        | .ok (entries, after) => .ok (entry :: entries, after)

/-- The search for a source line, which also stops at the next address. The lines it leaves begin
with the line it stopped at. -/
def findSource : List Text → Except Exc (Option (Text × Int) × List Text)
  | [] => .ok (none, [])
  | line :: rest =>
    match sourceOf readers line with
    | some (.error e) => .error e
    | some (.ok source) => .ok (some source, line :: rest)
    | none => if (addressOf readers line).isSome then .ok (none, line :: rest) else findSource rest

/-- What the loop has collected. -/
structure AbacusLog (F : Type) where
  divergent : Dict Int DivergentAssignment
  locations : Dict Int AbacusLocation
  seTime : Option F
  qifTime : Option F

/-- Nothing yet. -/
def AbacusLog.start : AbacusLog F where
  divergent := .empty
  locations := .empty
  seTime := none
  qifTime := none

/-- `values and all(0 <= value <= 255 for value in values)`. -/
def AreBytes (entries : List KeyEntry) : Prop :=
  entries ≠ [] ∧ ∀ entry ∈ entries, 0 ≤ entry.value ∧ entry.value ≤ 255

instance (entries : List KeyEntry) : Decidable (AreBytes entries) :=
  inferInstanceAs (Decidable (_ ∧ _))

/-- The `assignment` of some lines. -/
def assignmentOf (entries : List KeyEntry) : DivergentAssignment where
  values := entries.map fun entry => UInt8.ofNat entry.value.toNat
  offsetValues := entries.filterMap fun entry => entry.offset.map fun offset => (offset, entry.value)

/-- A block whose values are bytes is stored. -/
def AbacusLog.addBlock (log : AbacusLog F) (addr : Int) (entries : List KeyEntry) : AbacusLog F :=
  if AreBytes entries then { log with divergent := log.divergent.set addr (assignmentOf entries) }
  else log

/-- The `entry` of a source line. -/
def locate (conv : AbacusConversion) (source : Text × Int) : AbacusLocation :=
  let filename := relativizeToCodeRoot conv.cwd source.1 conv.codeRoot
  { filename := filename
    line := source.2
    code := match conv.codeRoot with
      | none => none
      | some [] => none
      | some (c :: cs) =>
        conv.sourceLine conv.library (pathJoin (abspath conv.cwd (c :: cs)) filename) source.2 }

/-- An address with a source line is stored. -/
def AbacusLog.addAddress (conv : AbacusConversion) (log : AbacusLog F) (addr : Int)
    (source : Option (Text × Int)) : AbacusLog F :=
  match source with
  | none => log
  | some source => { log with locations := log.locations.set addr (locate conv source) }

/-- One round of the outer loop: what is collected then, and the lines that are left. -/
def stepLine (conv : AbacusConversion) (log : AbacusLog F) (line : Text) (rest : List Text) :
    Except Exc (AbacusLog F × List Text) :=
  match seTimeOf readers line with
  | some (.error e) => .error e
  | some (.ok time) => .ok ({ log with seTime := some time }, rest)
  | none =>
    match qifTimeOf readers line with
    | some (.error e) => .error e
    | some (.ok time) => .ok ({ log with qifTime := some time }, rest)
    | none =>
      match divergentOf line with
      | some (.error e) => .error e
      | some (.ok addr) =>
        match readBlock readers rest with
        | .error e => .error e
        | .ok (entries, after) => .ok (log.addBlock addr entries, after)
      | none =>
        match addressOf readers line with
        | some (.error e) => .error e
        | some (.ok addr) =>
          match findSource readers rest with
          | .error e => .error e
          | .ok (source, after) => .ok (log.addAddress conv addr source, after)
        | none => .ok (log, rest)

variable {readers}

theorem length_of_readBlock {lines after : List Text} {entries : List KeyEntry}
    (h : readBlock readers lines = .ok (entries, after)) : after.length ≤ lines.length := by
  induction lines generalizing entries with
  | nil =>
    obtain ⟨-, rfl⟩ := Prod.mk.inj (Except.ok.inj h)
    exact le_rfl
  | cons line rest ih =>
    rw [readBlock] at h
    split at h
    · obtain ⟨-, rfl⟩ := Prod.mk.inj (Except.ok.inj h)
      exact le_rfl
    · split at h
      · obtain ⟨-, rfl⟩ := Prod.mk.inj (Except.ok.inj h)
        exact le_rfl
      · cases h
      · split at h
        · cases h
        · next more after' hrest =>
          obtain ⟨-, rfl⟩ := Prod.mk.inj (Except.ok.inj h)
          have := ih hrest
          rw [List.length_cons]
          omega

theorem length_of_findSource {lines after : List Text} {source : Option (Text × Int)}
    (h : findSource readers lines = .ok (source, after)) : after.length ≤ lines.length := by
  induction lines with
  | nil =>
    obtain ⟨-, rfl⟩ := Prod.mk.inj (Except.ok.inj h)
    exact le_rfl
  | cons line rest ih =>
    rw [findSource] at h
    split at h
    · cases h
    · obtain ⟨-, rfl⟩ := Prod.mk.inj (Except.ok.inj h)
      exact le_rfl
    · split at h
      · obtain ⟨-, rfl⟩ := Prod.mk.inj (Except.ok.inj h)
        exact le_rfl
      · have := ih h
        rw [List.length_cons]
        omega

/-- A round takes at least its own line. -/
theorem length_of_stepLine {conv : AbacusConversion} {log log' : AbacusLog F} {line : Text}
    {rest after : List Text} (h : stepLine readers conv log line rest = .ok (log', after)) :
    after.length ≤ rest.length := by
  unfold stepLine at h
  split at h
  · cases h
  · obtain ⟨-, rfl⟩ := Prod.mk.inj (Except.ok.inj h)
    exact le_rfl
  split at h
  · cases h
  · obtain ⟨-, rfl⟩ := Prod.mk.inj (Except.ok.inj h)
    exact le_rfl
  split at h
  · cases h
  · split at h
    · cases h
    · next entries after' hblock =>
      obtain ⟨-, rfl⟩ := Prod.mk.inj (Except.ok.inj h)
      exact length_of_readBlock hblock
  split at h
  · cases h
  · split at h
    · cases h
    · next source after' hsource =>
      obtain ⟨-, rfl⟩ := Prod.mk.inj (Except.ok.inj h)
      exact length_of_findSource hsource
  · obtain ⟨-, rfl⟩ := Prod.mk.inj (Except.ok.inj h)
    exact le_rfl

variable (readers)

/-- The outer loop. -/
def parseAbacusLines (conv : AbacusConversion) (log : AbacusLog F) (lines : List Text) :
    Except Exc (AbacusLog F) :=
  match lines with
  | [] => .ok log
  | line :: rest =>
    match _h : stepLine readers conv log line rest with
    | .error e => .error e
    | .ok (log', after) => parseAbacusLines conv log' after
termination_by lines.length
decreasing_by
  have := length_of_stepLine _h
  rw [List.length_cons]
  omega

/-- The lines of a log as the loop looks at them, `lines[i].rstrip("\n")`. -/
def abacusLines (content : Text) : List Text :=
  (readlines (universalNewlines content)).map fun line => line.rdropWhile (· = '\n')

/-! ### The rows -/

/-- `non_ct_time`. -/
def AbacusLog.nonCtTime (log : AbacusLog F) : Option F :=
  match log.seTime, log.qifTime with
  | some se, some qif => some (readers.add se qif)
  | _, _ => none

/-- The row of an address before its counterexamples. -/
def AbacusLog.row (log : AbacusLog F) (kind : DivergenceKind) (addr : Int) : Row F where
  filename := (log.locations.get? addr).map AbacusLocation.filename
  line := (log.locations.get? addr).map AbacusLocation.line
  column := none
  nonCtTime := log.nonCtTime readers
  kind := some kind
  code := (log.locations.get? addr).bind AbacusLocation.code
  counterexamples := none
  reproducedStatus := none

/-- The body of the loop over the addresses. -/
def addressRow (conv : AbacusConversion) (log : AbacusLog F) (addr : Int) : Except Exc (Row F) :=
  match instructionKind conv addr with
  | .error e => .error e
  | .ok kind =>
    match log.divergent.get? addr with
    | none => .ok (log.row readers kind addr)
    | some assignment =>
      match buildCounterexamples conv.layout assignment with
      | .error e => .error e
      | .ok counterexamples =>
        .ok { log.row readers kind addr with counterexamples := some counterexamples }

/-- The rows of what was collected, by address. -/
def abacusRows (conv : AbacusConversion) (log : AbacusLog F) : Except Exc (List (ResultRow F)) :=
  match (sortedSet (log.divergent.keys ++ log.locations.keys)).mapM
      (addressRow readers conv log) with
  | .error e => .error e
  | .ok rows => rows.mapM makeResultRow

/-- `convert_abacus_log` on the decoded log: the rows of the payload. -/
def convertAbacusLog (conv : AbacusConversion) (content : Text) :
    Except Exc (List (ResultRow F)) :=
  match parseAbacusLines readers conv .start (abacusLines content) with
  | .error e => .error e
  | .ok log => abacusRows readers conv log

end Lines

/-! ### The kinds of lines -/

/-- The first letter of a line. -/
def opening (line : Text) : Option Char := (lstrip line).head?

theorem opening_of_start {c : Char} {w line : Text} (hc : isSpace c = false)
    (h : c :: w <+: line) : opening line = some c := by
  obtain ⟨t, rfl⟩ := h
  rw [opening, List.cons_append, lstrip_of_head hc]
  rfl

/-- A pattern that begins with a literal matches at that literal only. -/
theorem prefix_of_match? {w line : Text} {r : Regex} {m : Captures}
    (h : match? (.seq (.lit w) r) line = some m) : w <+: line := by
  obtain ⟨_, hm, -⟩ := exists_mem_of_match? h
  obtain ⟨m₁, h₁, -⟩ := mem_matchAt_seq.mp hm
  obtain ⟨-, rfl⟩ := mem_matchAt_lit.mp h₁
  exact List.prefix_append w m₁.2

section Kinds

variable {F : Type} {readers : AbacusReaders F} {line : Text}

theorem prefix_of_secondsOf {tool : Text} {time : Except Exc F}
    (h : secondsOf readers tool line = some time) :
    "Time taken by ".toList ++ (tool ++ [':']) <+: line := by
  obtain ⟨m, hm, -⟩ := Option.map_eq_some_iff.mp h
  exact prefix_of_match? hm

theorem opening_of_secondsOf {tool : Text} {time : Except Exc F}
    (h : secondsOf readers tool line = some time) : opening line = some 'T' :=
  opening_of_start (by decide) (prefix_of_secondsOf h)

theorem opening_of_divergentOf {addr : Except Exc Int} (h : divergentOf line = some addr) :
    opening line = some '[' := by
  obtain ⟨m, hm, -⟩ := Option.map_eq_some_iff.mp h
  exact opening_of_start (by decide) (prefix_of_match? hm)

theorem opening_of_addressOf {addr : Except Exc Int} (h : addressOf readers line = some addr) :
    opening line = some 'A' := by
  obtain ⟨m, hm, -⟩ := Option.map_eq_some_iff.mp h
  exact opening_of_start (by decide) (prefix_of_match? hm)

theorem opening_of_sourceOf {source : Except Exc (Text × Int)}
    (h : sourceOf readers line = some source) : opening line = some 'S' := by
  obtain ⟨m, hm, -⟩ := Option.map_eq_some_iff.mp h
  exact opening_of_start (by decide) (prefix_of_match? hm)

/-- The pattern of a line of a block skips white space itself. -/
theorem opening_of_keyEntryOf {entry : Except Exc KeyEntry}
    (h : keyEntryOf readers line = some entry) :
    opening line = some 'K' ∨ opening line = some 'I' := by
  obtain ⟨m, hm, -⟩ := Option.map_eq_some_iff.mp h
  obtain ⟨_, hmem, -⟩ := exists_mem_of_match? hm
  obtain ⟨m₁, h₁, m₂, h₂, -⟩ := mem_matchAt_seq.mp hmem
  obtain ⟨-, blank, rfl, hblank, -⟩ := mem_matchAt_many.mp h₁
  have hskip : opening (blank ++ m₁.2) = opening m₁.2 := by
    rw [opening, lstrip, List.dropWhile_append_of_pos hblank]
    rfl
  rw [hskip]
  obtain ⟨m₃, h₃, -⟩ := mem_matchAt_seq.mp h₂
  rcases List.mem_append.mp h₃ with h₃ | h₃
  · obtain ⟨m₄, h₄, -⟩ := mem_matchAt_seq.mp h₃
    rw [(mem_matchAt_lit.mp h₄).2]
    exact .inl (opening_of_start (by decide) (List.prefix_append _ _))
  · obtain ⟨m₄, h₄, -⟩ := mem_matchAt_seq.mp h₃
    rw [(mem_matchAt_lit.mp h₄).2]
    exact .inr (opening_of_start (by decide) (List.prefix_append _ _))

/-- The two times differ behind the words they share. -/
theorem seTimeOf_of_qifTimeOf {time : Except Exc F} (h : qifTimeOf readers line = some time) :
    seTimeOf readers line = none := by
  rw [Option.eq_none_iff_forall_ne_some]
  intro time' h'
  rcases List.prefix_or_prefix_of_prefix (prefix_of_secondsOf h) (prefix_of_secondsOf h')
    with hp | hp
  · exact absurd hp (by decide)
  · exact absurd hp (by decide)

end Kinds

end KleeDeps.Converters

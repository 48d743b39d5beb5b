import KleeDeps.Data.SortedSearch
import KleeDeps.Py.Dict
import KleeDeps.Replay.InputMode

/-!
# From an address to a source location

`tools/utilities/addrinfo.py`: the rows of the line programs of all compile units go into one
map from addresses to locations, end markers, rows of line 0 and rows without a file left out,
and an address is looked up by bisection. A line program itself is a list of sequences, each of
which covers the addresses from its first row up to its end marker.

- `getAddrInfo_spec`: a lookup finds the nearest recorded row at or before the address, of
  whichever sequence;
- `neighbours_spec`: the columns next to it are right;
- `resolveDivergenceLocation_none`: without a result the earlier instructions are tried;
- `lookup_agrees_iff`: exactly when the lookup agrees with the sequences.
-/

namespace KleeDeps.Replay

open Py SortedSearch

/-! ## Paths (`os.path`) -/

def isabs (path : Text) : Bool := path.head? = some '/'

/-- `os.path.join` of two parts. -/
def pathJoin (path part : Text) : Text :=
  if isabs part then part
  else if path = [] ∨ path.getLast? = some '/' then path ++ part
  else path ++ '/' :: part

/-- The components that `normpath` keeps. -/
def normComponents (absolute : Bool) : List Text → List Text → List Text
  | [], kept => kept
  | comp :: comps, kept =>
    if comp = [] ∨ comp = ".".toList then normComponents absolute comps kept
    else if comp ≠ "..".toList ∨ (absolute = false ∧ kept = []) ∨
        kept.getLast? = some "..".toList then
      normComponents absolute comps (kept ++ [comp])
    else normComponents absolute comps kept.dropLast

def normpath (path : Text) : Text :=
  if path = [] then ".".toList
  else
    -- two leading slashes stay, three or more are one
    let slashes := if isabs path = false then 0
      else if path.take 2 = "//".toList ∧ path.take 3 ≠ "///".toList then 2 else 1
    let normalized := List.replicate slashes '/' ++
      join "/".toList (normComponents (isabs path) (path.splitOn '/') [])
    if normalized = [] then ".".toList else normalized

/-! ## The line programs -/

structure FileEntry where
  name : Text
  dirIndex : Nat

/-- `entry.state`: a row of the line table. -/
structure LineState where
  address : Int
  file : Int
  line : Int
  column : Int
  endSequence : Bool

/-- A line program as decoded; entries without a state only change registers. -/
structure LineProgram where
  version : Nat
  fileEntry : List FileEntry
  includeDirectory : List Text
  entries : List (Option LineState)

structure CompileUnit where
  compDir : Option Text
  lineProgram : Option LineProgram

/-- An executable: its compile units, `none` without DWARF. -/
abbrev Executable := Option (List CompileUnit)

/-- `_resolve_line_program_path`. -/
def resolveLineProgramPath (compDir : Text) (prog : LineProgram) (fileIndex : Int)
    (zeroBasedFiles : Bool) : Option Text :=
  if fileIndex < 0 then none
  else
    let entryIndex :=
      if zeroBasedFiles then fileIndex.toNat
      else if fileIndex = 0 then 0
      else fileIndex.toNat - 1
    match prog.fileEntry[entryIndex]? with
    | none => none
    | some entry =>
      if isabs entry.name then some (normpath entry.name)
      else
        let directory :=
          if zeroBasedFiles then prog.includeDirectory[entry.dirIndex]?
          else if entry.dirIndex > 0 then prog.includeDirectory[entry.dirIndex - 1]?
          else none
        match directory with
        | some directory =>
          if isabs directory then some (normpath (pathJoin directory entry.name))
          else some (normpath (pathJoin (pathJoin compDir directory) entry.name))
        | none => some (normpath (pathJoin compDir entry.name))

/-- `_line_program_uses_zero_based_files`. -/
def usesZeroBasedFiles (prog : LineProgram) : Bool :=
  prog.version ≥ 5 || prog.entries.any fun entry =>
    match entry with
    | none => false
    | some state => state.file = 0

/-- The location of a row, if its file resolves. -/
def CompileUnit.locate (unit : CompileUnit) (prog : LineProgram) (state : LineState) :
    Option SourceLocation :=
  (resolveLineProgramPath (unit.compDir.getD []) prog state.file (usesZeroBasedFiles prog)).map
    fun path => { file := path, line := state.line, column := state.column }

/-- What the loop over the entries records for one of them. -/
def recordEntry (locate : LineState → Option SourceLocation) :
    Option LineState → Option (Int × SourceLocation)
  | none => none
  | some state =>
    if state.endSequence = true ∨ state.line = 0 then none
    else (locate state).map fun location => (state.address, location)

/-- The rows recorded of a unit, in program order. -/
def CompileUnit.recorded (unit : CompileUnit) : List (Int × SourceLocation) :=
  match unit.lineProgram with
  | none => []
  | some prog => prog.entries.filterMap (recordEntry (unit.locate prog))

/-! ## The lookup -/

/-- An entry of `_ADDR_CACHE`. -/
structure AddrCache where
  addrMap : Dict Int SourceLocation
  addrs : List Int
  lineColumns : Dict (Text × Int) (List Int)

/-- `_ensure_addr_cache` on an executable with DWARF. -/
def ensureAddrCache (units : List CompileUnit) : AddrCache :=
  let recorded := units.flatMap CompileUnit.recorded
  let addrMap := Dict.empty.setAll recorded
  { addrMap := addrMap
    addrs := sortedSet addrMap.keys
    lineColumns :=
      (Dict.group (fun location => (location.file, location.line)) (recorded.map Prod.snd)).mapValues
        fun locations => sortedSet (locations.map SourceLocation.column) }

/-- `get_addr_info_context`. -/
def getAddrInfoContext (exe : Executable) (address : Int) : Option AddrInfo :=
  match exe with
  | none => none
  | some units =>
    let cache := ensureAddrCache units
    if cache.addrMap.items = [] then none
    else
      let idx := bisectRight cache.addrs address
      if idx = 0 then none
      else
        match cache.addrs[idx - 1]?.bind cache.addrMap.get? with
        | none => none
        | some location =>
          let columns := (cache.lineColumns.get? (location.file, location.line)).getD []
          let around := neighbours columns location.column
          some
            { location := location
              previousColumn := around.1
              nextColumn := around.2 }

/-- `get_addr_info`. -/
def getAddrInfo (exe : Executable) (address : Int) : Option SourceLocation :=
  (getAddrInfoContext exe address).map AddrInfo.location

/-! ## The sequences -/

/-- A sequence of a line program: its rows with their locations, and the address of its end
marker. -/
structure Sequence where
  rows : List (Int × Option SourceLocation)
  stop : Int

/-- The sequences of a list of rows; `rows` is what the open one has so far. -/
def sequencesOf (locate : LineState → Option SourceLocation) :
    List (Option LineState) → List (Int × Option SourceLocation) → List Sequence
  | [], _ => []
  | none :: entries, rows => sequencesOf locate entries rows
  | some state :: entries, rows =>
    if state.endSequence then
      { rows := rows, stop := state.address } :: sequencesOf locate entries []
    else sequencesOf locate entries (rows ++ [(state.address, locate state)])

def CompileUnit.sequences (unit : CompileUnit) : List Sequence :=
  match unit.lineProgram with
  | none => []
  | some prog => sequencesOf (unit.locate prog) prog.entries []

def sequences (exe : Executable) : List Sequence :=
  (exe.getD []).flatMap CompileUnit.sequences

/-- All rows recorded of an executable, in program order. -/
def recorded (exe : Executable) : List (Int × SourceLocation) :=
  (exe.getD []).flatMap CompileUnit.recorded

/-- An address between the first row and the end marker. -/
def Sequence.Contains (sequence : Sequence) (address : Int) : Prop :=
  ∃ first, sequence.rows.head? = some first ∧ first.1 ≤ address ∧ address < sequence.stop

/-- The last row at or before an address. -/
def Sequence.lastRow (sequence : Sequence) (address : Int) :
    Option (Int × Option SourceLocation) :=
  (sequence.rows.filter (·.1 ≤ address)).getLast?

/-! ## What a lookup finds -/

/-- A location of the last recorded row at or before an address: the rows that follow it in
program order are at lower addresses, or behind the address. -/
def NearestRow (rows : List (Int × SourceLocation)) (address : Int)
    (location : SourceLocation) : Prop :=
  ∃ before start after, rows = before ++ (start, location) :: after ∧ start ≤ address ∧
    (∀ row ∈ before, row.1 ≤ address → row.1 ≤ start) ∧
    ∀ row ∈ after, row.1 ≤ address → row.1 < start

theorem mem_addrs {units : List CompileUnit} {address : Int} :
    address ∈ (ensureAddrCache units).addrs ↔
      ∃ row ∈ units.flatMap CompileUnit.recorded, row.1 = address := by
  show address ∈ sortedSet (Dict.empty.setAll (units.flatMap CompileUnit.recorded)).keys ↔ _
  rw [mem_sortedSet, Dict.mem_keys_setAll]
  constructor
  · rintro (h | h)
    · exact absurd h List.not_mem_nil
    · exact List.mem_map.mp h
  · exact fun h => Or.inr (List.mem_map.mpr h)

/-- The map holds the last row recorded at an address. -/
theorem exists_split_of_addrMap {units : List CompileUnit} {address : Int}
    {location : SourceLocation}
    (h : (ensureAddrCache units).addrMap.get? address = some location) :
    ∃ before after, units.flatMap CompileUnit.recorded = before ++ (address, location) :: after ∧
      ∀ row ∈ after, row.1 ≠ address := by
  have hlookup : Dict.lookup address (units.flatMap CompileUnit.recorded).reverse =
      some location := by
    have hget := Dict.get?_setAll Dict.empty (units.flatMap CompileUnit.recorded) address
    rw [show (Dict.empty.setAll (units.flatMap CompileUnit.recorded)).get? address =
      some location from h] at hget
    have hempty : (Dict.empty : Dict Int SourceLocation).get? address = none := rfl
    rw [hempty, Option.or_none] at hget
    exact hget.symm
  obtain ⟨after, before, hsplit, hafter⟩ := Dict.exists_split_of_lookup hlookup
  refine ⟨before.reverse, after.reverse, ?_, fun row hrow => hafter row (List.mem_reverse.mp hrow)⟩
  rw [← List.reverse_reverse (units.flatMap CompileUnit.recorded), hsplit]
  simp only [List.reverse_append, List.reverse_cons, List.append_assoc, List.singleton_append]

theorem getAddrInfoContext_spec (exe : Executable) (address : Int) :
    (getAddrInfoContext exe address = none ∧ ∀ row ∈ recorded exe, address < row.1) ∨
      ∃ info, getAddrInfoContext exe address = some info ∧
        NearestRow (recorded exe) address info.location := by
  cases exe with
  | none => exact Or.inl ⟨rfl, fun row hrow => absurd hrow List.not_mem_nil⟩
  | some units =>
    show _ ∨ ∃ info : AddrInfo, _ ∧
      NearestRow (units.flatMap CompileUnit.recorded) address info.location
    -- `bisect_right` on the sorted addresses: before the first of them, or behind the
    -- greatest below
    rcases bisectRight_spec (pairwise_sortedSet (ensureAddrCache units).addrMap.keys) address
      with ⟨hzero, habove⟩ | ⟨hne, start, hstart, ⟨hmem, hle⟩, hgreatest⟩
    · refine Or.inl ⟨?_, fun row hrow => habove row.1 (mem_addrs.mpr ⟨row, hrow, rfl⟩)⟩
      simp only [getAddrInfoContext]
      split
      · rfl
      · exact if_pos hzero
    · refine Or.inr ?_
      obtain ⟨location, hget⟩ :=
        Dict.exists_get?_of_mem_keys (mem_sortedSet.mp hmem)
      have hitems : (ensureAddrCache units).addrMap.items ≠ [] := by
        intro hnil
        have hitem := Dict.mem_items_iff.mpr hget
        rw [hnil] at hitem
        exact List.not_mem_nil hitem
      obtain ⟨before, after, hsplit, hafter⟩ := exists_split_of_addrMap hget
      have hfound : (ensureAddrCache units).addrs[bisectRight (ensureAddrCache units).addrs
          address - 1]?.bind (ensureAddrCache units).addrMap.get? = some location := by
        have hstart' : (ensureAddrCache units).addrs[bisectRight (ensureAddrCache units).addrs
          address - 1]? = some start := hstart
        rw [hstart']
        exact hget
      have hne' : bisectRight (ensureAddrCache units).addrs address ≠ 0 := hne
      refine ⟨_, by simp only [getAddrInfoContext, if_neg hitems, if_neg hne', hfound]; rfl, ?_⟩
      refine ⟨before, start, after, hsplit, hle, fun row hrow hrow' => ?_, fun row hrow hrow' => ?_⟩
      · refine hgreatest ⟨mem_addrs.mpr ⟨row, ?_, rfl⟩, hrow'⟩
        rw [hsplit]
        exact List.mem_append_left _ hrow
      · refine lt_of_le_of_ne (hgreatest ⟨mem_addrs.mpr ⟨row, ?_, rfl⟩, hrow'⟩) (hafter row hrow)
        rw [hsplit]
        exact List.mem_append_right _ (List.mem_cons_of_mem _ hrow)

/-- Two locations of the last recorded row are the same. -/
theorem NearestRow.unique {rows : List (Int × SourceLocation)} {address : Int}
    {location location' : SourceLocation} (h : NearestRow rows address location)
    (h' : NearestRow rows address location') : location = location' := by
  obtain ⟨before, start, after, hsplit, hstart, hbefore, hafter⟩ := h
  obtain ⟨before', start', after', hsplit', hstart', hbefore', hafter'⟩ := h'
  rw [hsplit] at hsplit'
  rcases List.append_eq_append_iff.mp hsplit' with ⟨gap, hgap, htail⟩ | ⟨gap, hgap, htail⟩
  · cases gap with
    | nil => exact congrArg Prod.snd (List.cons.inj htail).1
    | cons row gap =>
      -- the second row comes later: it would be both lower and not lower
      obtain ⟨rfl, hrest⟩ := List.cons.inj htail
      have hlate : (start', location') ∈ after := by
        rw [hrest]
        exact List.mem_append_right _ List.mem_cons_self
      have hearly : (start, location) ∈ before' := by
        rw [hgap]
        exact List.mem_append_right _ List.mem_cons_self
      exact absurd (hafter _ hlate hstart') (not_lt_of_ge (hbefore' _ hearly hstart))
  · cases gap with
    | nil => exact congrArg Prod.snd (List.cons.inj htail).1.symm
    | cons row gap =>
      obtain ⟨rfl, hrest⟩ := List.cons.inj htail
      have hlate : (start, location) ∈ after' := by
        rw [hrest]
        exact List.mem_append_right _ List.mem_cons_self
      have hearly : (start', location') ∈ before := by
        rw [hgap]
        exact List.mem_append_right _ List.mem_cons_self
      exact absurd (hafter' _ hlate hstart) (not_lt_of_ge (hbefore _ hearly hstart'))

theorem NearestRow.exists_row {rows : List (Int × SourceLocation)} {address : Int}
    {location : SourceLocation} (h : NearestRow rows address location) :
    ∃ start, (start, location) ∈ rows ∧ start ≤ address := by
  obtain ⟨before, start, after, rfl, hstart, -, -⟩ := h
  exact ⟨start, List.mem_append_right _ List.mem_cons_self, hstart⟩

theorem getAddrInfo_eq_some_iff {exe : Executable} {address : Int} {location : SourceLocation} :
    getAddrInfo exe address = some location ↔ NearestRow (recorded exe) address location := by
  rw [getAddrInfo, Option.map_eq_some_iff]
  rcases getAddrInfoContext_spec exe address with ⟨hnone, habove⟩ | ⟨info, hsome, hnearest⟩
  · rw [hnone]
    constructor
    · rintro ⟨info, hinfo, -⟩
      cases hinfo
    · intro h
      obtain ⟨start, hmem, hle⟩ := h.exists_row
      exact absurd hle (not_le_of_gt (habove _ hmem))
  · rw [hsome]
    constructor
    · rintro ⟨info', hinfo, rfl⟩
      rw [← Option.some.inj hinfo]
      exact hnearest
    · exact fun h => ⟨info, rfl, hnearest.unique h⟩

theorem getAddrInfo_eq_none_iff {exe : Executable} {address : Int} :
    getAddrInfo exe address = none ↔ ∀ row ∈ recorded exe, address < row.1 := by
  rw [getAddrInfo, Option.map_eq_none_iff]
  rcases getAddrInfoContext_spec exe address with ⟨hnone, habove⟩ | ⟨info, hsome, hnearest⟩
  · exact ⟨fun _ => habove, fun _ => hnone⟩
  · obtain ⟨start, hmem, hle⟩ := hnearest.exists_row
    constructor
    · intro hnone
      rw [hsome] at hnone
      cases hnone
    · exact fun h => absurd hle (not_le_of_gt (h _ hmem))

/-- A recorded row has a line. -/
theorem line_ne_zero_of_mem_recorded {exe : Executable} {row : Int × SourceLocation}
    (h : row ∈ recorded exe) : row.2.line ≠ 0 := by
  obtain ⟨unit, -, hrow⟩ := List.mem_flatMap.mp h
  rw [CompileUnit.recorded] at hrow
  split at hrow
  · exact absurd hrow List.not_mem_nil
  · rename_i prog hprog
    obtain ⟨entry, -, hentry⟩ := List.mem_filterMap.mp hrow
    cases entry with
    | none => cases hentry
    | some state =>
      rw [recordEntry] at hentry
      split at hentry
      · cases hentry
      · rename_i hkept
        obtain ⟨location, hlocation, rfl⟩ := Option.map_eq_some_iff.mp hentry
        obtain ⟨path, -, rfl⟩ := Option.map_eq_some_iff.mp hlocation
        exact fun hline => hkept (Or.inr hline)

/-! ### The neighbouring columns -/

/-- The columns recorded for a file and a line. -/
def recordedColumns (exe : Executable) (file : Text) (line : Int) : Set Int :=
  {column | ∃ row ∈ recorded exe, row.2 = { file := file, line := line, column := column }}

theorem mem_lineColumns {units : List CompileUnit} {file : Text} {line column : Int} :
    column ∈ ((ensureAddrCache units).lineColumns.get? (file, line)).getD [] ↔
      column ∈ recordedColumns (some units) file line := by
  show column ∈ (((Dict.group _ _).mapValues _).get? (file, line)).getD [] ↔ _
  rw [Dict.get?_mapValues, Dict.get?_group]
  have hmem : ∀ location : SourceLocation,
      location ∈ ((units.flatMap CompileUnit.recorded).map Prod.snd).filter
          (fun location => (location.file, location.line) = (file, line)) ↔
        (∃ row ∈ recorded (some units), row.2 = location) ∧ location.file = file ∧
          location.line = line := by
    intro location
    rw [List.mem_filter, List.mem_map, decide_eq_true_iff, Prod.mk.injEq]
    rfl
  have hcolumns : column ∈ recordedColumns (some units) file line ↔
      ∃ location, ((∃ row ∈ recorded (some units), row.2 = location) ∧ location.file = file ∧
        location.line = line) ∧ location.column = column := by
    constructor
    · exact fun ⟨row, hrow, heq⟩ => ⟨_, ⟨⟨row, hrow, heq⟩, rfl, rfl⟩, rfl⟩
    · rintro ⟨location, ⟨⟨row, hrow, heq⟩, rfl, rfl⟩, rfl⟩
      exact ⟨row, hrow, heq⟩
  rw [hcolumns]
  by_cases hnil : ((units.flatMap CompileUnit.recorded).map Prod.snd).filter
      (fun location => (location.file, location.line) = (file, line)) = []
  · rw [if_pos hnil]
    constructor
    · exact fun h => absurd h List.not_mem_nil
    · rintro ⟨location, hlocation, -⟩
      have hin := (hmem location).mpr hlocation
      rw [hnil] at hin
      exact absurd hin List.not_mem_nil
  · rw [if_neg hnil, Option.map_some, Option.getD_some, mem_sortedSet, List.mem_map]
    exact exists_congr fun location => and_congr_left fun _ => hmem location

theorem pairwise_lineColumns (units : List CompileUnit) (key : Text × Int) :
    (((ensureAddrCache units).lineColumns.get? key).getD []).Pairwise (· < ·) := by
  show ((((Dict.group _ _).mapValues _).get? key).getD []).Pairwise (· < ·)
  rw [Dict.get?_mapValues]
  cases (Dict.group _ _).get? key with
  | none => exact List.Pairwise.nil
  | some locations => exact pairwise_sortedSet _

/-- The neighbouring columns of a result are the nearest ones recorded for its file and line. -/
theorem neighbours_spec {exe : Executable} {address : Int} {info : AddrInfo}
    (h : getAddrInfoContext exe address = some info) :
    NearestBelow (recordedColumns exe info.location.file info.location.line)
        info.location.column info.previousColumn ∧
      NearestAbove (recordedColumns exe info.location.file info.location.line)
        info.location.column info.nextColumn := by
  cases exe with
  | none => cases h
  | some units =>
    simp only [getAddrInfoContext] at h
    split at h
    · cases h
    split at h
    · cases h
    split at h
    · cases h
    rename_i location _
    obtain rfl := Option.some.inj h
    have hset : {column | column ∈
        ((ensureAddrCache units).lineColumns.get? (location.file, location.line)).getD []} =
        recordedColumns (some units) location.file location.line :=
      Set.ext fun column => mem_lineColumns
    rw [← hset]
    have hsorted := pairwise_lineColumns units (location.file, location.line)
    exact ⟨nearestBelow_neighbours hsorted _, nearestAbove_neighbours hsorted _⟩

/-! ### The earlier instructions -/

/-- The location of the newest of the recent instructions that has one. -/
def earlierLocation (lookup : Int → Option AddrInfo) (divergence : Divergence) :
    Option Int × Option SourceLocation × Option (Option Int × Option Int) :=
  match divergence.recentIps.reverse.findSome? fun ip => (lookup ip).map fun info => (ip, info) with
  | some (ip, info) =>
    (some ip, some info.location, some (info.previousColumn, info.nextColumn))
  | none => (divergence.culpritIp, none, none)

/-- Trying an address once finds what trying it each time it comes finds. -/
theorem find?_candidates (divergence : Divergence) (p : Int → Bool) :
    (candidates divergence).find? p =
      (divergence.culpritIp.toList ++ divergence.recentIps.reverse).find? p := by
  rw [candidates]
  generalize divergence.recentIps.reverse = ips
  generalize divergence.culpritIp.toList = seen
  induction ips generalizing seen with
  | nil => rw [List.append_nil, List.foldl_nil]
  | cons ip ips ih =>
    rw [List.foldl_cons, ih]
    by_cases hseen : ip ∈ seen
    · rw [if_pos hseen, List.find?_append, List.find?_append, List.find?_cons]
      cases hip : p ip with
      | false => rfl
      | true =>
        obtain ⟨found, hfound⟩ :=
          Option.isSome_iff_exists.mp (List.find?_isSome.mpr ⟨ip, hseen, hip⟩)
        rw [hfound]
        rfl
    · rw [if_neg hseen, List.append_assoc]
      rfl

/-- A culprit with a location is the answer. -/
theorem resolveDivergenceLocation_some {lookup : Int → Option AddrInfo}
    {divergence : Divergence} {culprit : Int} {info : AddrInfo}
    (hculprit : divergence.culpritIp = some culprit) (hlookup : lookup culprit = some info) :
    resolveDivergenceLocation (some lookup) divergence =
      (some culprit, some info.location, some (info.previousColumn, info.nextColumn)) := by
  have hfind : ((candidates divergence).find? fun ip => (lookup ip).isSome) = some culprit := by
    rw [find?_candidates, hculprit]
    refine List.find?_cons_of_pos ?_
    rw [hlookup]
    rfl
  simp only [resolveDivergenceLocation, hfind, hlookup]

/-- Without one the earlier instructions are tried. -/
theorem resolveDivergenceLocation_none {lookup : Int → Option AddrInfo}
    {divergence : Divergence} {culprit : Int}
    (hculprit : divergence.culpritIp = some culprit) (hlookup : lookup culprit = none) :
    resolveDivergenceLocation (some lookup) divergence = earlierLocation lookup divergence := by
  have hfind : ((candidates divergence).find? fun ip => (lookup ip).isSome) =
      divergence.recentIps.reverse.find? fun ip => (lookup ip).isSome := by
    rw [find?_candidates, hculprit]
    refine List.find?_cons_of_neg ?_
    rw [hlookup]
    exact Bool.false_ne_true
  rw [earlierLocation]
  simp only [resolveDivergenceLocation, hfind]
  induction divergence.recentIps.reverse with
  | nil => rfl
  | cons ip ips ih =>
    rw [List.find?_cons, List.findSome?_cons]
    cases hip : lookup ip with
    | none => exact ih
    | some info => simp only [Option.isSome_some, hip, Option.map_some]

/-! ## Agreement with the sequences -/

/-- What a lookup of an address should be: the location of the last row at or before it in each
sequence that contains it, nothing if none does, with the nearest recorded columns; the earlier
instructions are tried exactly for a culprit in no sequence. -/
structure Agrees (exe : Executable) (address : Int) : Prop where
  lookup : ∀ sequence ∈ sequences exe, sequence.Contains address → ∃ row location,
    sequence.lastRow address = some row ∧ row.2 = some location ∧
      getAddrInfo exe address = some location
  none_iff : getAddrInfo exe address = none ↔
    ∀ sequence ∈ sequences exe, ¬sequence.Contains address
  columns : ∀ info, getAddrInfoContext exe address = some info →
    NearestBelow (recordedColumns exe info.location.file info.location.line)
        info.location.column info.previousColumn ∧
      NearestAbove (recordedColumns exe info.location.file info.location.line)
        info.location.column info.nextColumn
  culprit : ∀ divergence : Divergence, divergence.culpritIp = some address →
    (∃ sequence ∈ sequences exe, sequence.Contains address) →
    (resolveDivergenceLocation (some (getAddrInfoContext exe)) divergence).1 = some address ∧
      ∃ location, getAddrInfo exe address = some location ∧
        (resolveDivergenceLocation (some (getAddrInfoContext exe)) divergence).2.1 = some location
  earlier : ∀ divergence : Divergence, divergence.culpritIp = some address →
    (∀ sequence ∈ sequences exe, ¬sequence.Contains address) →
    resolveDivergenceLocation (some (getAddrInfoContext exe)) divergence =
      earlierLocation (getAddrInfoContext exe) divergence

/-- The row of an address is recorded (it has a line and a file) and is not covered up by rows
of other sequences; before an address in no sequence nothing is recorded. -/
structure Covered (exe : Executable) (address : Int) : Prop where
  inside : ∀ sequence ∈ sequences exe, sequence.Contains address → ∃ row location,
    sequence.lastRow address = some row ∧ row.2 = some location ∧ location.line ≠ 0 ∧
      NearestRow (recorded exe) address location
  outside : (∀ sequence ∈ sequences exe, ¬sequence.Contains address) →
    ∀ row ∈ recorded exe, address < row.1

theorem culprit_location {exe : Executable} {address : Int} {location : SourceLocation}
    (h : getAddrInfo exe address = some location) {divergence : Divergence}
    (hculprit : divergence.culpritIp = some address) :
    (resolveDivergenceLocation (some (getAddrInfoContext exe)) divergence).1 = some address ∧
      (resolveDivergenceLocation (some (getAddrInfoContext exe)) divergence).2.1 =
        some location := by
  obtain ⟨info, hinfo, rfl⟩ := Option.map_eq_some_iff.mp h
  rw [resolveDivergenceLocation_some hculprit hinfo]
  exact ⟨rfl, rfl⟩

/-- **The lookup agrees with the sequences** exactly on the covered addresses. -/
theorem lookup_agrees_iff (exe : Executable) (address : Int) :
    Agrees exe address ↔ Covered exe address := by
  constructor
  · intro h
    refine ⟨fun sequence hsequence hcontains => ?_, fun hnone => ?_⟩
    · obtain ⟨row, location, hrow, hlocation, hget⟩ := h.lookup sequence hsequence hcontains
      have hnearest := getAddrInfo_eq_some_iff.mp hget
      obtain ⟨start, hmem, -⟩ := hnearest.exists_row
      exact ⟨row, location, hrow, hlocation, line_ne_zero_of_mem_recorded hmem, hnearest⟩
    · exact getAddrInfo_eq_none_iff.mp (h.none_iff.mpr hnone)
  · intro h
    -- all the rest follows from the lookup inside the sequences and outside them
    have hlookup : ∀ sequence ∈ sequences exe, sequence.Contains address → ∃ row location,
        sequence.lastRow address = some row ∧ row.2 = some location ∧
          getAddrInfo exe address = some location := by
      intro sequence hsequence hcontains
      obtain ⟨row, location, hrow, hlocation, -, hnearest⟩ :=
        h.inside sequence hsequence hcontains
      exact ⟨row, location, hrow, hlocation, getAddrInfo_eq_some_iff.mpr hnearest⟩
    have houtside : (∀ sequence ∈ sequences exe, ¬sequence.Contains address) →
        getAddrInfo exe address = none := fun hnone =>
      getAddrInfo_eq_none_iff.mpr (h.outside hnone)
    refine ⟨hlookup, ⟨fun hnone sequence hsequence hcontains => ?_, houtside⟩,
      fun info hinfo => neighbours_spec hinfo, ?_, fun divergence hculprit hnone => ?_⟩
    · obtain ⟨row, location, -, -, hget⟩ := hlookup sequence hsequence hcontains
      rw [hnone] at hget
      cases hget
    · rintro divergence hculprit ⟨sequence, hsequence, hcontains⟩
      obtain ⟨row, location, -, -, hget⟩ := hlookup sequence hsequence hcontains
      obtain ⟨hip, hlocation⟩ := culprit_location hget hculprit
      exact ⟨hip, location, hget, hlocation⟩
    · have hnothing := Option.map_eq_none_iff.mp (houtside hnone)
      exact resolveDivergenceLocation_none hculprit hnothing

/-- One function at `0x1000` to `0x1010`, nothing known of the code behind it. -/
def strippedTail : Executable :=
  some [{
    compDir := some "/src".toList
    lineProgram := some {
      version := 4
      fileEntry := [{ name := "aes.c".toList, dirIndex := 0 }]
      includeDirectory := []
      entries := [
        some { address := 0x1000, file := 1, line := 7, column := 3, endSequence := false },
        some { address := 0x1010, file := 1, line := 7, column := 3, endSequence := true }] } }]

/-- An instruction far behind the function gets the last location of the function. -/
theorem strippedTail_disagrees :
    (∀ sequence ∈ sequences strippedTail, ¬sequence.Contains 0x2000) ∧
      getAddrInfo strippedTail 0x2000 =
        some { file := "/src/aes.c".toList, line := 7, column := 3 } ∧
      ¬Agrees strippedTail 0x2000 := by
  have hoff : ∀ sequence ∈ sequences strippedTail, ¬sequence.Contains 0x2000 := by
    intro sequence hsequence
    have hone : sequence.stop = 0x1010 := by
      rw [List.mem_singleton.mp (show sequence ∈ [Sequence.mk _ _] from hsequence)]
    rintro ⟨first, -, -, hstop⟩
    rw [hone] at hstop
    exact absurd hstop (by decide)
  have hget : getAddrInfo strippedTail 0x2000 =
      some { file := "/src/aes.c".toList, line := 7, column := 3 } := by
    decide
  refine ⟨hoff, hget, fun h => ?_⟩
  rw [h.none_iff.mpr hoff] at hget
  cases hget

end KleeDeps.Replay

import KleeDeps.Postprocess.Pooling
import Mathlib.Data.List.Dedup
import Mathlib.Algebra.BigOperators.Group.List.Basic

/-!
# The repetitions of an experiment

`merge_json_runs_by_experiment.py` folds the result files of the repetitions of one
experiment into one: the findings are grouped by location, and for each location the
statuses of its replays are counted.

- `mergeSingleExperiment`: the loop over the files and the rows that come out;
- `Tally`: what the status counts of a location say;
- `consistent_iff`: **when a location called inconsistent is inconsistent across
  repetitions**.
-/

namespace KleeDeps.Postprocess

open Py Shared Replay

/-! ## Counting texts -/

/-- `counts[key] = counts.get(key, 0) + 1`. -/
def countText (counts : Dict Text Nat) (key : Text) : Dict Text Nat :=
  counts.set key ((counts.get? key).getD 0 + 1)

/-- The counts of a list of texts: a positive count for each of them, in all as many as
there are. -/
structure Tally (counts : Dict Text Nat) (texts : List Text) : Prop where
  count : ∀ text n, (text, n) ∈ counts.items → 0 < n
  keys : ∀ text, text ∈ counts.keys ↔ text ∈ texts
  total : (counts.items.map Prod.snd).sum = texts.length

theorem sum_insert (key : Text) (n : Nat) (items : List (Text × Nat)) :
    ((Dict.insert key n items).map Prod.snd).sum + (Dict.lookup key items).getD 0 =
      (items.map Prod.snd).sum + n := by
  induction items with
  | nil => simp [Dict.insert, Dict.lookup]
  | cons item items ih =>
    obtain ⟨key', n'⟩ := item
    by_cases h : key' = key
    · simp [Dict.insert, Dict.lookup, h]
      omega
    · simp only [Dict.insert, Dict.lookup, if_neg h, List.map_cons, List.sum_cons]
      omega

theorem mem_insert {key text : Text} {n m : Nat} {items : List (Text × Nat)}
    (h : (text, m) ∈ Dict.insert key n items) : (text, m) ∈ items ∨ m = n := by
  induction items with
  | nil => exact Or.inr (Prod.mk.inj (List.mem_singleton.mp h)).2
  | cons item items ih =>
    obtain ⟨key', n'⟩ := item
    rw [Dict.insert] at h
    split at h
    · rcases List.mem_cons.mp h with heq | h
      · exact Or.inr (Prod.mk.inj heq).2
      · exact Or.inl (List.mem_cons_of_mem _ h)
    · rcases List.mem_cons.mp h with heq | h
      · exact Or.inl (heq ▸ List.mem_cons_self)
      · exact (ih h).imp_left (List.mem_cons_of_mem _)

theorem tally_empty : Tally .empty [] where
  count := fun _ _ h => absurd h List.not_mem_nil
  keys := fun _ => Iff.rfl
  total := rfl

theorem Tally.countText {counts : Dict Text Nat} {texts : List Text} (h : Tally counts texts)
    (text : Text) : Tally (countText counts text) (texts ++ [text]) where
  count := by
    intro key n hmem
    rcases mem_insert hmem with hmem | rfl
    · exact h.count key n hmem
    · exact Nat.succ_pos _
  keys := by
    intro key
    show key ∈ (Dict.insert text _ counts.items).map Prod.fst ↔ _
    rw [Dict.keys_insert, List.mem_append, List.mem_singleton]
    have hkeys := h.keys key
    unfold Dict.keys at hkeys
    split
    · next hold =>
      rw [← hkeys]
      exact ⟨Or.inl, fun hor => hor.elim id fun heq => heq ▸ hold⟩
    · rw [List.mem_append, List.mem_singleton, hkeys]
  total := by
    have hsum := sum_insert text ((counts.get? text).getD 0 + 1) counts.items
    have htotal := h.total
    show ((Dict.insert text _ counts.items).map Prod.snd).sum = _
    rw [List.length_append, List.length_singleton]
    unfold Dict.get? at hsum ⊢
    omega

/-! ## The merge (`merge_json_runs_by_experiment.py`) -/

/-- The key of a location in the merge. -/
structure MergeKey where
  filename : Text
  line : Int
  column : Option Int
  library : Text
  kind : Option Text
  deriving DecidableEq, Repr

/-- What is collected at a location. -/
structure Slot (F : Type) where
  visitCounts : List F
  nonCtCounts : List F
  visitTimes : List F
  nonCtTimes : List F
  code : Value
  counterexamples : Value
  statusCounts : Dict Text Nat

/-- A new slot. -/
def Slot.new {F : Type} : Slot F where
  visitCounts := []
  nonCtCounts := []
  visitTimes := []
  nonCtTimes := []
  code := .null
  counterexamples := .null
  statusCounts := .empty

/-- `_read_payload` of this script: the rows, the metadata and the notes. -/
def readRepetition (path : Text) (payload : Value) :
    Except Exc (List Object × Object × Object) :=
  match payload with
  | .list rows => .ok (rows.filterMap Value.asDict?, [], [])
  | .dict items =>
    match (Value.field items "data".toList).asList? with
    | none => .ok ([], [], [])
    | some rows =>
      match Value.field items "metadata".toList, Value.field items "notes".toList with
      | .null, .null => .ok (rows.filterMap Value.asDict?, [], [])
      | .null, .dict notes => .ok (rows.filterMap Value.asDict?, [], notes)
      | .dict metadata, .null => .ok (rows.filterMap Value.asDict?, metadata, [])
      | .dict metadata, .dict notes => .ok (rows.filterMap Value.asDict?, metadata, notes)
      | .null, _ | .dict _, _ =>
        .error (.exit (path ++ ": payload notes must be a JSON object".toList))
      | _, _ => .error (.exit (path ++ ": payload metadata must be a JSON object".toList))
  | _ => .ok ([], [], [])

/-- `metadata.get("library") or "unknown"`. -/
def libraryOrUnknown (metadata : Object) : Text := (libraryOf metadata).getD "unknown".toList

/-- The status of a row that is counted. -/
def statusOf (row : Object) : Option Text := strippedField row "reproduced_status".toList

section Merge

variable {F : Type} (readers : Readers F) (geometricMean : List F → Option F)
  (same : Object → Object → Bool)

/-- The key of a row, unless it is skipped. -/
def rowKey (library : Text) (row : Object) : Option MergeKey :=
  match (Value.field row "filename".toList).asStr?, readers.toInt (Value.field row "line".toList),
      readers.toFloat (Value.field row "non_ct_time".toList) with
  | some filename, some line, some _ =>
    if basenameOnly filename = [] then none
    else some
      { filename := basenameOnly filename, line := line
        column := readers.toInt (Value.field row "column".toList)
        library := library, kind := (Value.field row "kind".toList).asStr? }
  | _, _, _ => none

/-- `value if value is not None` at the end of a list. -/
def appendSome (values : List F) (value : Option F) : List F := values ++ value.toList

/-- The first value that is not `None`. -/
def firstValue (known value : Value) : Value :=
  match known with
  | .null => value
  | known => known

/-- A slot after a row. -/
def Slot.add (slot : Slot F) (row : Object) : Slot F where
  visitCounts := appendSome slot.visitCounts
    (readers.toFloat (Value.field row "visit_count".toList))
  nonCtCounts := appendSome slot.nonCtCounts
    (readers.toFloat (Value.field row "non_ct_count".toList))
  visitTimes := appendSome slot.visitTimes (readers.toFloat (Value.field row "visit_time".toList))
  nonCtTimes := appendSome slot.nonCtTimes
    (readers.toFloat (Value.field row "non_ct_time".toList))
  code := firstValue slot.code (Value.field row "code".toList)
  counterexamples := firstValue slot.counterexamples (Value.field row "counterexamples".toList)
  statusCounts := match statusOf row with
    | some status => countText slot.statusCounts status
    | none => slot.statusCounts

/-- One row of the loop. -/
def addRow (library : Text) (slots : Dict MergeKey (Slot F)) (row : Object) :
    Dict MergeKey (Slot F) :=
  match rowKey readers library row with
  | none => slots
  | some key => slots.set key (((slots.get? key).getD .new).add readers row)

/-- The variables of the loop over the files. -/
structure MergeState (F : Type) where
  metadata : Option Object
  notes : Option Object
  slots : Dict MergeKey (Slot F)

/-- The first file decides, the others have to repeat it. -/
def repeated (known : Option Object) (read : Object) (error : Text) : Except Exc (Option Object) :=
  match known with
  | none => .ok (some read)
  | some first => if same read first then .ok (some first) else .error (.exit error)

/-- One file of the loop. -/
def mergeRepetition (state : MergeState F) (file : Text × Value) : Except Exc (MergeState F) := do
  let (rows, metadata, notes) ← readRepetition file.1 file.2
  let knownMetadata ← repeated same state.metadata metadata
    (file.1 ++ ": metadata does not match other repetitions for this experiment".toList)
  let knownNotes ← repeated same state.notes notes
    (file.1 ++ ": notes do not match other repetitions for this experiment".toList)
  return { metadata := knownMetadata, notes := knownNotes
           slots := rows.foldl (addRow readers (libraryOrUnknown metadata)) state.slots }

/-- A row of the merged file. -/
structure MergedRow (F : Type) where
  key : MergeKey
  nonCtTime : F
  visitCount : Option F
  nonCtCount : Option F
  visitTime : Option F
  code : Value
  counterexamples : Value
  reproducedStatus : List (Text × Nat)

/-- The order of the merged rows. -/
def MergeKey.sortKey (key : MergeKey) : List Text × Int × Int × Text :=
  ([key.library, key.filename], key.line, key.column.getD (-1), key.kind.getD [])

/-- The merged row of a slot, unless its times have no mean. -/
def mergedRow (item : MergeKey × Slot F) : Option (MergedRow F) :=
  (geometricMean item.2.nonCtTimes).map fun nonCtTime =>
    { key := item.1, nonCtTime := nonCtTime
      visitCount := geometricMean item.2.visitCounts
      nonCtCount := geometricMean item.2.nonCtCounts
      visitTime := geometricMean item.2.visitTimes
      code := item.2.code, counterexamples := item.2.counterexamples
      reproducedStatus := item.2.statusCounts.items.mergeSort fun a b => !decide (b.1 < a.1) }

/-- `_merge_single_experiment`: the merged rows, the metadata and the notes. -/
def mergeSingleExperiment (files : List (Text × Value)) :
    Except Exc (List (MergedRow F) × Object × Object) := do
  let state ← files.foldlM (mergeRepetition readers same)
    { metadata := none, notes := none, slots := .empty }
  return ((state.slots.items.mergeSort fun a b => sortedBefore a.1.sortKey b.1.sortKey).filterMap
    (mergedRow geometricMean), state.metadata.getD [], state.notes.getD [])

/-- The status of a merged row as the summary reads it. -/
def MergedRow.statusValue (row : MergedRow F) : Value :=
  .dict (row.reproducedStatus.map fun item => (item.1, .int item.2))

/-! ## What the counts of a location say -/

/-- The statuses the rows of a list have at a location. -/
def rowStatuses (library : Text) (rows : List Object) (key : MergeKey) : List Text :=
  rows.filterMap fun row => if rowKey readers library row = some key then statusOf row else none

/-- The statuses a repetition has at a location. -/
def statusesAt (key : MergeKey) (file : Text × Value) : List Text :=
  match readRepetition file.1 file.2 with
  | .error _ => []
  | .ok (rows, metadata, _) => rowStatuses readers (libraryOrUnknown metadata) rows key

/-- The slots count these statuses. -/
def Tallied (slots : Dict MergeKey (Slot F)) (statuses : MergeKey → List Text) : Prop :=
  ∀ key, Tally (((slots.get? key).getD .new).statusCounts) (statuses key)

variable {readers geometricMean same}

/-- **Step lemma** for a row. -/
theorem Tallied.addRow {slots : Dict MergeKey (Slot F)} {statuses : MergeKey → List Text}
    (h : Tallied slots statuses) (readers : Readers F) (library : Text) (row : Object) :
    Tallied (addRow readers library slots row) fun key =>
      statuses key ++ rowStatuses readers library [row] key := by
  intro key
  unfold Postprocess.addRow rowStatuses
  simp only [List.filterMap_cons, List.filterMap_nil]
  cases hrow : rowKey readers library row with
  | none => simpa using h key
  | some found =>
    simp only [Option.some.injEq]
    rw [Dict.get?_set]
    by_cases hkey : found = key
    · subst hkey
      rw [if_pos rfl, if_pos rfl]
      simp only [Option.getD_some, Slot.add]
      cases hstatus : statusOf row with
      | none => simpa using h found
      | some status => exact (h found).countText status
    · rw [if_neg hkey, if_neg hkey]
      simpa using h key

/-- **Run lemma** for the rows of a file. -/
theorem Tallied.addRows {rows : List Object} {slots : Dict MergeKey (Slot F)}
    {statuses : MergeKey → List Text} (h : Tallied slots statuses) (readers : Readers F)
    (library : Text) :
    Tallied (rows.foldl (Postprocess.addRow readers library) slots) fun key =>
      statuses key ++ rowStatuses readers library rows key := by
  induction rows generalizing slots statuses with
  | nil => simpa [rowStatuses] using h
  | cons row rows ih =>
    have hrest := ih (h.addRow readers library row)
    have happend : ∀ key, statuses key ++ rowStatuses readers library [row] key ++
        rowStatuses readers library rows key =
          statuses key ++ rowStatuses readers library (row :: rows) key := by
      intro key
      rw [List.append_assoc]
      congr 1
      unfold rowStatuses
      rw [← List.filterMap_append]
      rfl
    simpa only [List.foldl_cons, happend] using hrest

/-- **Run lemma** for the files. -/
theorem tallied_of_foldlM {files : List (Text × Value)} {state : MergeState F}
    (h : files.foldlM (mergeRepetition readers same)
      { metadata := none, notes := none, slots := .empty } = .ok state) :
    Tallied state.slots fun key => files.flatMap (statusesAt readers key) := by
  let P : List (Text × Value) → MergeState F → Prop := fun done state =>
    Tallied state.slots fun key => done.flatMap (statusesAt readers key)
  refine Sequence.foldlM_ok_induction P h [] (fun key => tally_empty) ?_
  intro done file s t _ hdone hstep
  unfold mergeRepetition at hstep
  simp only [bind, Except.bind] at hstep
  split at hstep
  · cases hstep
  · next read hread =>
    split at hstep
    · cases hstep
    · split at hstep
      · cases hstep
      · obtain rfl := Except.ok.inj hstep
        have hrows : Tallied (read.1.foldl _ s.slots) _ :=
          Tallied.addRows hdone readers (libraryOrUnknown read.2.1)
        have hfile : ∀ key, statusesAt readers key file =
            rowStatuses readers (libraryOrUnknown read.2.1) read.1 key := by
          intro key
          unfold statusesAt
          rw [hread]
        intro key
        show Tally _ ((done ++ [file]).flatMap (statusesAt readers key))
        rw [List.flatMap_append, List.flatMap_singleton, hfile]
        exact hrows key

/-- A merged row counts the statuses of its location. -/
theorem tally_of_mergeSingleExperiment {files : List (Text × Value)} {rows : List (MergedRow F)}
    {metadata notes : Object}
    (h : mergeSingleExperiment readers geometricMean same files = .ok (rows, metadata, notes))
    {row : MergedRow F} (hrow : row ∈ rows) :
    ∃ counts : Dict Text Nat, row.reproducedStatus.Perm counts.items ∧
      Tally counts (files.flatMap (statusesAt readers row.key)) := by
  unfold mergeSingleExperiment at h
  simp only [bind, Except.bind] at h
  split at h
  · cases h
  · next state hstate =>
    obtain ⟨rfl, -, -⟩ := Prod.mk.inj (Except.ok.inj h)
    obtain ⟨⟨key, slot⟩, hitem, hmerged⟩ := List.mem_filterMap.mp hrow
    rw [List.mem_mergeSort] at hitem
    unfold mergedRow at hmerged
    obtain ⟨time, -, rfl⟩ := Option.map_eq_some_iff.mp hmerged
    refine ⟨slot.statusCounts, List.mergeSort_perm _ _, ?_⟩
    have htally := tallied_of_foldlM hstate key
    rw [Dict.get?_of_mem _ hitem] at htally
    exact htally

end Merge

/-! ## Inconsistent locations -/

section Inconsistent

variable {F : Type} {readers : Readers F}

/-- Positive counts under valid names: the names decide. -/
theorem positiveStatuses_eq (hint : ∀ n, readers.toInt (.int n) = some n) (context : Text)
    {items : List (Text × Nat)} (hpos : ∀ item ∈ items, 0 < item.2)
    (hvalid : ∀ item ∈ items, normalizeStatus item.1 ≠ none) :
    positiveStatuses readers context (items.map fun item => (item.1, .int item.2)) =
      .ok (items.filterMap fun item => normalizeStatus item.1) := by
  induction items with
  | nil => rfl
  | cons item items ih =>
    obtain ⟨name, n⟩ := item
    obtain ⟨status, hstatus⟩ := Option.ne_none_iff_exists'.mp (hvalid _ List.mem_cons_self)
    have hn : 0 < n := hpos _ List.mem_cons_self
    have hrest := ih (fun item hitem => hpos item (by simp [hitem]))
      fun item hitem => hvalid item (by simp [hitem])
    have hname : normalizeStatusName context name = .ok status := by
      unfold normalizeStatusName
      rw [hstatus]
    simp only [List.map_cons, positiveStatuses, hname, hint, hrest, bind, Except.bind,
      List.filterMap_cons, hstatus]
    rw [if_neg (by omega), if_pos (by omega)]
    rfl

/-- A list has two different elements iff its deduplication has two elements. -/
theorem dedup_cases {α : Type} [DecidableEq α] (xs : List α) :
    (xs = [] ∧ xs.dedup = []) ∨ (∃ x, xs.dedup = [x] ∧ ∀ y ∈ xs, y = x) ∨
      (∃ x y rest, xs.dedup = x :: y :: rest ∧ x ∈ xs ∧ y ∈ xs ∧ x ≠ y) := by
  rcases hdedup : xs.dedup with _ | ⟨x, _ | ⟨y, rest⟩⟩
  · exact Or.inl ⟨(List.dedup_eq_nil xs).mp hdedup, rfl⟩
  · refine Or.inr (Or.inl ⟨x, rfl, fun y hy => ?_⟩)
    rw [← List.mem_dedup, hdedup] at hy
    exact List.mem_singleton.mp hy
  · have hmem : ∀ z, z ∈ xs ↔ z ∈ x :: y :: rest := fun z => by rw [← hdedup, List.mem_dedup]
    have hnodup := hdedup ▸ xs.nodup_dedup
    refine Or.inr (Or.inr ⟨x, y, rest, rfl, (hmem x).mpr (by simp), (hmem y).mpr (by simp), ?_⟩)
    rintro rfl
    exact (List.nodup_cons.mp hnodup).1 List.mem_cons_self

/-- The bucket of a map that is not empty, by its positive statuses. -/
theorem resolveStatusBucket_of_positive {context : Text} {items : Object} {positive : List Status}
    (hne : items ≠ []) (h : positiveStatuses readers context items = .ok positive) :
    (positive.dedup = [] → ∀ bucket, resolveStatusBucket readers context (.dict items) ≠
      .ok bucket) ∧
    (∀ status, positive.dedup = [status] →
      resolveStatusBucket readers context (.dict items) = .ok (.status status)) ∧
    ∀ first second rest, positive.dedup = first :: second :: rest →
      resolveStatusBucket readers context (.dict items) = .ok .inconsistent := by
  obtain ⟨item, items, rfl⟩ := List.exists_cons_of_ne_nil hne
  simp only [resolveStatusBucket, bind, Except.bind, h]
  refine ⟨?_, ?_, ?_⟩
  · intro hdedup bucket
    rw [hdedup]
    exact nofun
  · intro status hdedup
    rw [hdedup]
    rfl
  · intro first second rest hdedup
    rw [hdedup]
    rfl

/-- **The bucket**: positive counts under valid names are inconsistent iff two of the names
are different statuses. -/
theorem inconsistent_iff (hint : ∀ n, readers.toInt (.int n) = some n) (context : Text)
    {items : List (Text × Nat)} (hpos : ∀ item ∈ items, 0 < item.2)
    (hvalid : ∀ item ∈ items, normalizeStatus item.1 ≠ none) :
    resolveStatusBucket readers context (.dict (items.map fun item => (item.1, .int item.2))) =
        .ok .inconsistent ↔
      ∃ a ∈ items, ∃ b ∈ items, normalizeStatus a.1 ≠ normalizeStatus b.1 := by
  by_cases hne : items = []
  · subst hne
    constructor
    · intro h
      cases h
    · rintro ⟨a, ha, -⟩
      cases ha
  · have hmem : ∀ status, status ∈ (items.filterMap fun item => normalizeStatus item.1) ↔
        ∃ a ∈ items, normalizeStatus a.1 = some status := fun status => List.mem_filterMap
    obtain ⟨hnone, hone, hmany⟩ := resolveStatusBucket_of_positive
      (by simpa using hne) (positiveStatuses_eq hint context hpos hvalid)
    -- none, one or several distinct statuses: the three results of `resolveStatusBucket`
    rcases dedup_cases (items.filterMap fun item => normalizeStatus item.1) with
      ⟨hnil, hdedup⟩ | ⟨x, hdedup, hall⟩ | ⟨x, y, rest, hdedup, hx, hy, hxy⟩
    · constructor
      · intro h
        exact absurd h (hnone hdedup _)
      · rintro ⟨a, ha, -⟩
        obtain ⟨status, hstatus⟩ := Option.ne_none_iff_exists'.mp (hvalid a ha)
        have := (hmem status).mpr ⟨a, ha, hstatus⟩
        rw [hnil] at this
        cases this
    · rw [hone x hdedup]
      constructor
      · intro h
        cases h
      · rintro ⟨a, ha, b, hb, hab⟩
        have hsame : ∀ c ∈ items, normalizeStatus c.1 = some x := by
          intro c hc
          obtain ⟨status, hstatus⟩ := Option.ne_none_iff_exists'.mp (hvalid c hc)
          rw [hstatus, hall status ((hmem status).mpr ⟨c, hc, hstatus⟩)]
        exact absurd ((hsame a ha).trans (hsame b hb).symm) hab
    · rw [hmany x y rest hdedup]
      obtain ⟨a, ha, hax⟩ := (hmem x).mp hx
      obtain ⟨b, hb, hby⟩ := (hmem y).mp hy
      refine ⟨fun _ => ⟨a, ha, b, hb, ?_⟩, fun _ => rfl⟩
      rw [hax, hby]
      exact fun h => hxy (Option.some.inj h)

/-- The statuses in the files are statuses of the schema, as the converters write them. -/
def FromConverters (readers : Readers F) (files : List (Text × Value)) : Prop :=
  ∀ key, ∀ file ∈ files, ∀ text ∈ statusesAt readers key file, normalizeStatus text ≠ none

/-- What the bucket promises of a merged row: an inconsistent location has two repetitions
with different statuses, and no more statuses are counted than there are repetitions. -/
def RepetitionsDiffer (readers : Readers F) (files : List (Text × Value)) (row : MergedRow F) :
    Prop :=
  (∀ context, resolveStatusBucket readers context row.statusValue = .ok .inconsistent →
    ∃ i j : Fin files.length, i ≠ j ∧ ∃ s ∈ statusesAt readers row.key (files.get i),
      ∃ t ∈ statusesAt readers row.key (files.get j), normalizeStatus s ≠ normalizeStatus t) ∧
  (row.reproducedStatus.map Prod.snd).sum ≤ files.length

/-- One repetition has different statuses at a location and no other has any. -/
def SplitWithin (readers : Readers F) (files : List (Text × Value)) (key : MergeKey) : Prop :=
  ∃ i : Fin files.length,
    (∃ s ∈ statusesAt readers key (files.get i), ∃ t ∈ statusesAt readers key (files.get i),
      normalizeStatus s ≠ normalizeStatus t) ∧
    ∀ j, j ≠ i → statusesAt readers key (files.get j) = []

theorem mem_flatMap_statusesAt {files : List (Text × Value)} {key : MergeKey} {text : Text} :
    text ∈ files.flatMap (statusesAt readers key) ↔
      ∃ i : Fin files.length, text ∈ statusesAt readers key (files.get i) := by
  rw [List.mem_flatMap]
  constructor
  · rintro ⟨file, hfile, htext⟩
    obtain ⟨i, rfl⟩ := List.get_of_mem hfile
    exact ⟨i, htext⟩
  · rintro ⟨i, htext⟩
    exact ⟨_, List.get_mem _ i, htext⟩

/-- Different statuses come from different repetitions unless one repetition is split. -/
theorem differ_iff (files : List (Text × Value)) (key : MergeKey) :
    ((∃ s ∈ files.flatMap (statusesAt readers key), ∃ t ∈ files.flatMap (statusesAt readers key),
        normalizeStatus s ≠ normalizeStatus t) →
      ∃ i j : Fin files.length, i ≠ j ∧ ∃ s ∈ statusesAt readers key (files.get i),
        ∃ t ∈ statusesAt readers key (files.get j), normalizeStatus s ≠ normalizeStatus t) ↔
      ¬ SplitWithin readers files key := by
  constructor
  · rintro hdiffer ⟨i, ⟨s, hs, t, ht, hne⟩, hothers⟩
    obtain ⟨j, k, hjk, a, ha, b, hb, -⟩ := hdiffer
      ⟨s, mem_flatMap_statusesAt.mpr ⟨i, hs⟩, t, mem_flatMap_statusesAt.mpr ⟨i, ht⟩, hne⟩
    have hone : ∀ k a, a ∈ statusesAt readers key (files.get k) → k = i := by
      intro k a ha
      by_contra hk
      rw [hothers k hk] at ha
      cases ha
    exact hjk ((hone j a ha).trans (hone k b hb).symm)
  · rintro hsplit ⟨s, hs, t, ht, hne⟩
    obtain ⟨i, hs⟩ := mem_flatMap_statusesAt.mp hs
    obtain ⟨j, ht⟩ := mem_flatMap_statusesAt.mp ht
    by_cases hij : i = j
    · -- both in one repetition: some other repetition has a status, and it differs from one
      subst hij
      obtain ⟨k, hk, hstatuses⟩ : ∃ k, k ≠ i ∧ statusesAt readers key (files.get k) ≠ [] := by
        by_contra hnone
        push Not at hnone
        exact hsplit ⟨i, ⟨s, hs, t, ht, hne⟩, hnone⟩
      obtain ⟨u, rest, hu⟩ := List.exists_cons_of_ne_nil hstatuses
      have humem : u ∈ statusesAt readers key (files.get k) := hu ▸ List.mem_cons_self
      by_cases hus : normalizeStatus u = normalizeStatus s
      · exact ⟨k, i, hk, u, humem, t, ht, by rw [hus]; exact hne⟩
      · exact ⟨k, i, hk, u, humem, s, hs, hus⟩
    · exact ⟨i, j, hij, s, hs, t, ht, hne⟩

/-- **What "inconsistent across repetitions" means.** For the files of every list of
repetitions and every merged row: the bucket keeps its promise iff the repetitions have in
all no more statuses at the location than there are repetitions, and it is not one
repetition alone that has different ones. -/
theorem consistent_iff (readers : Readers F) (hint : ∀ n, readers.toInt (.int n) = some n)
    (geometricMean : List F → Option F) (same : Object → Object → Bool)
    (files : List (Text × Value)) (hfiles : FromConverters readers files)
    {rows : List (MergedRow F)} {metadata notes : Object}
    (h : mergeSingleExperiment readers geometricMean same files = .ok (rows, metadata, notes))
    {row : MergedRow F} (hrow : row ∈ rows) :
    RepetitionsDiffer readers files row ↔
      ¬ SplitWithin readers files row.key ∧
        (files.map fun file => (statusesAt readers row.key file).length).sum ≤ files.length := by
  obtain ⟨counts, hperm, htally⟩ := tally_of_mergeSingleExperiment h hrow
  have hsum : (row.reproducedStatus.map Prod.snd).sum =
      (files.map fun file => (statusesAt readers row.key file).length).sum := by
    rw [(hperm.map Prod.snd).sum_eq, htally.total, List.length_flatMap]
  -- the texts tallied are the ones some file writes
  have hname : ∀ text, (∃ item ∈ row.reproducedStatus, item.1 = text) ↔
      text ∈ files.flatMap (statusesAt readers row.key) := by
    intro text
    rw [← htally.keys text, Dict.keys, List.mem_map]
    exact exists_congr fun item => and_congr_left fun _ => hperm.mem_iff
  have hpos : ∀ item ∈ row.reproducedStatus, 0 < item.2 := fun item hitem =>
    htally.count item.1 item.2 (hperm.mem_iff.mp hitem)
  have hvalid : ∀ item ∈ row.reproducedStatus, normalizeStatus item.1 ≠ none := by
    intro item hitem
    obtain ⟨file, hfile, htext⟩ := List.mem_flatMap.mp ((hname item.1).mp ⟨item, hitem, rfl⟩)
    exact hfiles row.key file hfile item.1 htext
  unfold RepetitionsDiffer
  rw [hsum, ← differ_iff]
  refine and_congr_left fun _ => ?_
  -- the bucket does not depend on the context, which only words the error
  have hbucket : ∀ context,
      resolveStatusBucket readers context row.statusValue = .ok .inconsistent ↔
      ∃ s ∈ files.flatMap (statusesAt readers row.key),
        ∃ t ∈ files.flatMap (statusesAt readers row.key),
          normalizeStatus s ≠ normalizeStatus t := by
    intro context
    unfold MergedRow.statusValue
    rw [inconsistent_iff hint context hpos hvalid]
    constructor
    · rintro ⟨a, ha, b, hb, hne⟩
      exact ⟨a.1, (hname _).mp ⟨a, ha, rfl⟩, b.1, (hname _).mp ⟨b, hb, rfl⟩, hne⟩
    · rintro ⟨s, hs, t, ht, hne⟩
      obtain ⟨a, ha, rfl⟩ := (hname s).mpr hs
      obtain ⟨b, hb, rfl⟩ := (hname t).mpr ht
      exact ⟨a, ha, b, hb, hne⟩
  simp only [hbucket]
  exact ⟨fun hall => hall [], fun hone _ => hone⟩

end Inconsistent

/-! ## One experiment -/

/-- A finding at `a.c:1:1` with a status. -/
def finding (status : String) (id : Nat) : Value :=
  .dict [("inst_id".toList, .int id), ("filename".toList, .str "a.c".toList),
    ("line".toList, .int 1), ("column".toList, .int 1), ("kind".toList, .str "branch".toList),
    ("non_ct_time".toList, .int 1), ("reproduced_status".toList, .str status.toList)]

/-- The result file of a repetition. -/
def repetition (path : String) (findings : List Value) : Text × Value :=
  (path.toList, .dict [("data".toList, .list findings),
    ("metadata".toList, .dict [("library".toList, .str "lib".toList)])])

/-- The location of the findings. -/
def findingKey : MergeKey where
  filename := "a.c".toList
  line := 1
  column := some 1
  library := "lib".toList
  kind := some "branch".toList

/-- What is collected there. -/
def findingSlot : Slot Nat where
  visitCounts := []
  nonCtCounts := []
  visitTimes := []
  nonCtTimes := [1, 1]
  code := .null
  counterexamples := .null
  statusCounts := countText (countText .empty "success".toList) "timeout".toList

/-- The merged row of the location. -/
def findingRow : MergedRow Nat where
  key := findingKey
  nonCtTime := 1
  visitCount := none
  nonCtCount := none
  visitTime := none
  code := .null
  counterexamples := .null
  reproducedStatus := [("success".toList, 1), ("timeout".toList, 1)]

/-- Two repetitions that differ. -/
def twoRepetitions : List (Text × Value) :=
  [repetition "0/lib.json" [finding "success" 7], repetition "1/lib.json" [finding "timeout" 7]]

/-- One repetition with two findings at one location. -/
def oneRepetition : List (Text × Value) :=
  [repetition "0/lib.json" [finding "success" 7, finding "timeout" 8]]

theorem mergedRow_findingSlot :
    mergedRow List.head? (findingKey, findingSlot) = some findingRow := by
  have hsorted : findingSlot.statusCounts.items.mergeSort (fun a b => !decide (b.1 < a.1)) =
      findingSlot.statusCounts.items := List.mergeSort_of_pairwise (by decide)
  simp only [mergedRow, hsorted]
  rfl

/-- Both experiments collect the same at the location. -/
theorem merge_findings {files : List (Text × Value)} {state : MergeState Nat}
    (hstate : files.foldlM (mergeRepetition wholeReaders fun _ _ => true)
      { metadata := none, notes := none, slots := .empty } = .ok state)
    (hslots : state.slots.items = [(findingKey, findingSlot)]) :
    mergeSingleExperiment wholeReaders List.head? (fun _ _ => true) files =
      .ok ([findingRow], state.metadata.getD [], state.notes.getD []) := by
  unfold mergeSingleExperiment
  rw [hstate]
  simp only [bind, Except.bind, hslots, List.mergeSort_singleton, List.filterMap_cons,
    mergedRow_findingSlot, List.filterMap_nil]
  rfl

/-- A repetition with one finding has no status but that of the finding. -/
theorem eq_of_mem_statusesAt {path status : String} {id : Nat} {key : MergeKey} {text : Text}
    (h : text ∈ statusesAt wholeReaders key (repetition path [finding status id])) :
    text = strip status.toList := by
  obtain ⟨row, hrow, hstatus⟩ := List.mem_filterMap.mp h
  obtain rfl := List.mem_singleton.mp hrow
  split at hstatus
  · have hstripped : (if strip status.toList = [] then none else some (strip status.toList)) =
        some text := hstatus
    split at hstripped
    · cases hstripped
    · exact (Option.some.inj hstripped).symm
  · cases hstatus

/-- The two repetitions differ, and there are two statuses. -/
theorem consistent_iff_twoRepetitions :
    RepetitionsDiffer wholeReaders twoRepetitions findingRow := by
  have hmerge := @merge_findings twoRepetitions _ rfl rfl
  refine (consistent_iff wholeReaders (fun _ => rfl) List.head? (fun _ _ => true) twoRepetitions
    ?_ hmerge List.mem_cons_self).mpr ⟨?_, by decide⟩
  · intro key file hfile text htext
    rcases List.mem_cons.mp hfile with rfl | hfile
    · rw [eq_of_mem_statusesAt htext]
      decide
    · obtain rfl := List.mem_singleton.mp hfile
      rw [eq_of_mem_statusesAt htext]
      decide
  · -- each repetition has one status
    rintro ⟨i, ⟨s, hs, t, ht, hne⟩, -⟩
    have hst : s = t := by
      rcases List.mem_cons.mp (List.get_mem twoRepetitions i) with hfile | hfile
      · rw [hfile] at hs ht
        rw [eq_of_mem_statusesAt hs, eq_of_mem_statusesAt ht]
      · rw [List.mem_singleton.mp hfile] at hs ht
        rw [eq_of_mem_statusesAt hs, eq_of_mem_statusesAt ht]
    exact hne (by rw [hst])

/-- Two findings of one repetition at one location: the row is inconsistent although there
is no second repetition, and it counts two statuses. -/
theorem one_repetition_is_inconsistent :
    (∃ metadata notes, mergeSingleExperiment wholeReaders List.head? (fun _ _ => true)
        oneRepetition = .ok ([findingRow], metadata, notes)) ∧
      resolveStatusBucket wholeReaders [] findingRow.statusValue = .ok .inconsistent ∧
      ¬ RepetitionsDiffer wholeReaders oneRepetition findingRow := by
  refine ⟨⟨_, _, merge_findings rfl rfl⟩, rfl, ?_⟩
  rintro ⟨-, hsum⟩
  exact absurd hsum (by decide)

end KleeDeps.Postprocess

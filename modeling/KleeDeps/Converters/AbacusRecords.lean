import KleeDeps.Converters.AbacusLog

/-!
# The records of an ABACUS log

A log is made of records: the two times, divergent blocks, and addresses with or without a source
line; other lines may stand between them. The search for the source line of an address stops at
the next address, but not at a record of another kind.

- `LogRecord`, `PrintedAs`, `LogOf`: the records of a log;
- `heard`: the records that no search has run over;
- `parse_logOf`: the loops collect exactly these.
-/

namespace KleeDeps.Converters

open Py

/-- A record: what its lines say. -/
inductive LogRecord (F : Type) where
  | seTime (time : F)
  | qifTime (time : F)
  | divergent (addr : Int) (entries : List KeyEntry)
  | address (addr : Int) (source : Option (Text × Int))

/-- The record is an address. -/
def LogRecord.isAddress {F : Type} : LogRecord F → Bool
  | .address _ _ => true
  | _ => false

/-- The record is an address without a source line. -/
def LogRecord.lacksSource {F : Type} : LogRecord F → Bool
  | .address _ none => true
  | _ => false

section Printing

variable {F : Type} (readers : AbacusReaders F)

/-- A line of none of the kinds that the parser knows. -/
structure Unrelated (line : Text) : Prop where
  seTime : seTimeOf readers line = none
  qifTime : qifTimeOf readers line = none
  divergent : divergentOf line = none
  keyEntry : keyEntryOf readers line = none
  address : addressOf readers line = none
  source : sourceOf readers line = none

/-- The lines of a record. The source line of an address is the next line that is of any kind. -/
inductive PrintedAs : LogRecord F → List Text → Prop where
  | seTime {line : Text} {time : F} (h : seTimeOf readers line = some (.ok time)) :
      PrintedAs (.seTime time) [line]
  | qifTime {line : Text} {time : F} (h : qifTimeOf readers line = some (.ok time)) :
      PrintedAs (.qifTime time) [line]
  | divergent {head : Text} {addr : Int} {keys : List (Text × KeyEntry)}
      (h : divergentOf head = some (.ok addr))
      (hkeys : ∀ key ∈ keys, keyEntryOf readers key.1 = some (.ok key.2)) :
      PrintedAs (.divergent addr (keys.map Prod.snd)) (head :: keys.map Prod.fst)
  | address {head : Text} {addr : Int} (h : addressOf readers head = some (.ok addr)) :
      PrintedAs (.address addr none) [head]
  | located {head line : Text} {gap : List Text} {addr : Int} {source : Text × Int}
      (h : addressOf readers head = some (.ok addr)) (hgap : ∀ l ∈ gap, Unrelated readers l)
      (hline : sourceOf readers line = some (.ok source)) :
      PrintedAs (.address addr (some source)) (head :: (gap ++ [line]))

/-- The records of some lines, with any unrelated lines between them. -/
inductive LogOf : List (LogRecord F) → List Text → Prop where
  | done {gap : List Text} (hgap : ∀ l ∈ gap, Unrelated readers l) : LogOf [] gap
  | record {gap lines rest : List Text} {r : LogRecord F} {rs : List (LogRecord F)}
      (hgap : ∀ l ∈ gap, Unrelated readers l) (hr : PrintedAs readers r lines)
      (hrs : LogOf rs rest) : LogOf (r :: rs) (gap ++ (lines ++ rest))

end Printing

/-! ### What the loops collect -/

section Collecting

variable {F : Type} {readers : AbacusReaders F}

/-- What a record adds. -/
def AbacusLog.note (conv : AbacusConversion) (log : AbacusLog F) : LogRecord F → AbacusLog F
  | .seTime time => { log with seTime := some time }
  | .qifTime time => { log with qifTime := some time }
  | .divergent addr entries => log.addBlock addr entries
  | .address addr source => log.addAddress conv addr source

/-- The records that are read, if a search for a source line is under way or not. -/
def heard (searching : Bool) : List (LogRecord F) → List (LogRecord F)
  | [] => []
  | r :: rest =>
    if r.isAddress then r :: heard r.lacksSource rest
    else if searching then heard true rest
    else r :: heard false rest

/-- A line that the search for a source line runs over. -/
def Skipped (readers : AbacusReaders F) (line : Text) : Prop :=
  sourceOf readers line = none ∧ addressOf readers line = none

theorem Unrelated.skipped {line : Text} (h : Unrelated readers line) : Skipped readers line :=
  ⟨h.source, h.address⟩

/-- A line that begins with another letter. -/
theorem skipped_of_opening {line : Text} {c : Char} (h : opening line = some c) (hs : c ≠ 'S')
    (ha : c ≠ 'A') : Skipped readers line := by
  constructor
  · rw [Option.eq_none_iff_forall_ne_some]
    intro source hsource
    exact hs (Option.some.inj (h.symm.trans (opening_of_sourceOf hsource)))
  · rw [Option.eq_none_iff_forall_ne_some]
    intro addr haddr
    exact ha (Option.some.inj (h.symm.trans (opening_of_addressOf haddr)))

theorem seTimeOf_eq_none {line : Text} (h : opening line ≠ some 'T') :
    seTimeOf readers line = none := by
  rw [Option.eq_none_iff_forall_ne_some]
  exact fun time htime => h (opening_of_secondsOf htime)

theorem qifTimeOf_eq_none {line : Text} (h : opening line ≠ some 'T') :
    qifTimeOf readers line = none := by
  rw [Option.eq_none_iff_forall_ne_some]
  exact fun time htime => h (opening_of_secondsOf htime)

theorem divergentOf_eq_none {line : Text} (h : opening line ≠ some '[') :
    divergentOf line = none := by
  rw [Option.eq_none_iff_forall_ne_some]
  exact fun addr haddr => h (opening_of_divergentOf haddr)

theorem keyEntryOf_eq_none {line : Text} {c : Char} (h : opening line = some c) (hk : c ≠ 'K')
    (hi : c ≠ 'I') : keyEntryOf readers line = none := by
  rw [Option.eq_none_iff_forall_ne_some]
  intro entry hentry
  rcases opening_of_keyEntryOf hentry with h' | h'
  · exact hk (Option.some.inj (h.symm.trans h'))
  · exact hi (Option.some.inj (h.symm.trans h'))

/-- A blank line has no first letter. -/
theorem strip_ne_nil {line : Text} {c : Char} (h : opening line = some c)
    (hc : isSpace c = false) : strip line ≠ [] := by
  intro hstrip
  have hspace := List.rdropWhile_eq_nil_iff.mp hstrip c (List.mem_of_mem_head? h)
  rw [hc] at hspace
  exact Bool.false_ne_true hspace

/-! ### One record -/

variable {conv : AbacusConversion} {log : AbacusLog F} {line : Text} {rest after : List Text}

theorem parse_of_stepLine {log' : AbacusLog F}
    (h : stepLine readers conv log line rest = .ok (log', after)) :
    parseAbacusLines readers conv log (line :: rest) =
      parseAbacusLines readers conv log' after := by
  rw [parseAbacusLines]
  split
  · next e he =>
    rw [h] at he
    cases he
  · next log'' after' h' =>
    rw [h] at h'
    obtain ⟨rfl, rfl⟩ := Prod.mk.inj (Except.ok.inj h')
    rfl

theorem stepLine_other (hse : seTimeOf readers line = none) (hqif : qifTimeOf readers line = none)
    (hdivergent : divergentOf line = none) (haddr : addressOf readers line = none) :
    stepLine readers conv log line rest = .ok (log, rest) := by
  unfold stepLine
  rw [hse, hqif, hdivergent, haddr]

theorem parse_unrelated {gap : List Text} (hgap : ∀ l ∈ gap, Unrelated readers l) :
    parseAbacusLines readers conv log (gap ++ rest) = parseAbacusLines readers conv log rest := by
  induction gap with
  | nil => rfl
  | cons line gap ih =>
    have hline := hgap line List.mem_cons_self
    rw [List.cons_append, parse_of_stepLine
      (stepLine_other hline.seTime hline.qifTime hline.divergent hline.address)]
    exact ih fun l hl => hgap l (List.mem_cons_of_mem line hl)

/-- The search runs over all lines that are neither a source line nor an address. -/
theorem findSource_skipped {gap : List Text} (hgap : ∀ l ∈ gap, Skipped readers l) :
    findSource readers (gap ++ rest) = findSource readers rest := by
  induction gap with
  | nil => rfl
  | cons line gap ih =>
    obtain ⟨hsource, haddr⟩ := hgap line List.mem_cons_self
    rw [List.cons_append, findSource, hsource, haddr]
    exact ih fun l hl => hgap l (List.mem_cons_of_mem line hl)

/-- A block ends before what is no line of it. -/
theorem readBlock_stop (h : ∀ l ∈ rest.head?, keyEntryOf readers l = none) :
    readBlock readers rest = .ok ([], rest) := by
  cases rest with
  | nil => rfl
  | cons line rest =>
    rw [readBlock, h line rfl]
    split <;> rfl

theorem readBlock_keys {keys : List (Text × KeyEntry)}
    (hkeys : ∀ key ∈ keys, keyEntryOf readers key.1 = some (.ok key.2))
    (hrest : readBlock readers rest = .ok ([], rest)) :
    readBlock readers (keys.map Prod.fst ++ rest) = .ok (keys.map Prod.snd, rest) := by
  induction keys with
  | nil => exact hrest
  | cons key keys ih =>
    have hkey := hkeys key List.mem_cons_self
    have hblank : strip key.1 ≠ [] := by
      rcases opening_of_keyEntryOf hkey with h | h
      · exact strip_ne_nil h (by decide)
      · exact strip_ne_nil h (by decide)
    rw [List.map_cons, List.cons_append, readBlock, if_neg hblank, hkey,
      ih fun k hk => hkeys k (List.mem_cons_of_mem key hk)]
    rfl

/-- The lines of a record that is no address stop no search. -/
theorem PrintedAs.skipped {r : LogRecord F} {lines : List Text} (h : PrintedAs readers r lines)
    (hr : r.isAddress = false) : ∀ l ∈ lines, Skipped readers l := by
  intro l hl
  cases h with
  | seTime h =>
    obtain rfl := List.mem_singleton.mp hl
    exact skipped_of_opening (opening_of_secondsOf h) (by decide) (by decide)
  | qifTime h =>
    obtain rfl := List.mem_singleton.mp hl
    exact skipped_of_opening (opening_of_secondsOf h) (by decide) (by decide)
  | divergent h hkeys =>
    rcases List.mem_cons.mp hl with rfl | hl
    · exact skipped_of_opening (opening_of_divergentOf h) (by decide) (by decide)
    · obtain ⟨key, hkey, rfl⟩ := List.mem_map.mp hl
      rcases opening_of_keyEntryOf (hkeys key hkey) with h | h
      · exact skipped_of_opening h (by decide) (by decide)
      · exact skipped_of_opening h (by decide) (by decide)
  | address h => cases hr
  | located h hgap hline => cases hr

/-- A block of a log ends where the next record begins. -/
theorem readBlock_of_logOf {rs : List (LogRecord F)} {lines : List Text}
    (h : LogOf readers rs lines) : readBlock readers lines = .ok ([], lines) := by
  refine readBlock_stop fun l hl => ?_
  cases h with
  | done hgap => exact (hgap l (List.mem_of_mem_head? hl)).keyEntry
  | @record gap ls rest r rs hgap hr hrs =>
    cases gap with
    | cons line gap =>
      obtain rfl := Option.some.inj hl
      exact (hgap _ List.mem_cons_self).keyEntry
    | nil =>
      cases hr with
      | seTime h =>
        obtain rfl := Option.some.inj hl
        exact keyEntryOf_eq_none (opening_of_secondsOf h) (by decide) (by decide)
      | qifTime h =>
        obtain rfl := Option.some.inj hl
        exact keyEntryOf_eq_none (opening_of_secondsOf h) (by decide) (by decide)
      | divergent h hkeys =>
        obtain rfl := Option.some.inj hl
        exact keyEntryOf_eq_none (opening_of_divergentOf h) (by decide) (by decide)
      | address h =>
        obtain rfl := Option.some.inj hl
        exact keyEntryOf_eq_none (opening_of_addressOf h) (by decide) (by decide)
      | located h hgap hline =>
        obtain rfl := Option.some.inj hl
        exact keyEntryOf_eq_none (opening_of_addressOf h) (by decide) (by decide)

theorem stepLine_divergent {addr : Int} {entries : List KeyEntry}
    (h : divergentOf line = some (.ok addr))
    (hblock : readBlock readers rest = .ok (entries, after)) :
    stepLine readers conv log line rest = .ok (log.addBlock addr entries, after) := by
  have hopening := opening_of_divergentOf h
  unfold stepLine
  rw [seTimeOf_eq_none (by rw [hopening]; decide), qifTimeOf_eq_none (by rw [hopening]; decide), h,
    hblock]

theorem stepLine_address {addr : Int} {source : Option (Text × Int)}
    (h : addressOf readers line = some (.ok addr))
    (hsource : findSource readers rest = .ok (source, after)) :
    stepLine readers conv log line rest = .ok (log.addAddress conv addr source, after) := by
  have hopening := opening_of_addressOf h
  unfold stepLine
  rw [seTimeOf_eq_none (by rw [hopening]; decide), qifTimeOf_eq_none (by rw [hopening]; decide),
    divergentOf_eq_none (by rw [hopening]; decide), h, hsource]

/-- **One record**: what it adds, and where the loop goes on. -/
theorem parse_printedAs {r : LogRecord F} {lines : List Text} (hr : PrintedAs readers r lines)
    (hblock : readBlock readers rest = .ok ([], rest))
    (hsearch : findSource readers rest = .ok (none, after)) :
    parseAbacusLines readers conv log (lines ++ rest) =
      parseAbacusLines readers conv (log.note conv r) (if r.lacksSource then after else rest) := by
  cases hr with
  | seTime h =>
    refine parse_of_stepLine ?_
    unfold stepLine
    rw [h]
    rfl
  | qifTime h =>
    refine parse_of_stepLine ?_
    unfold stepLine
    rw [seTimeOf_of_qifTimeOf h, h]
    rfl
  | divergent h hkeys =>
    exact parse_of_stepLine (stepLine_divergent h (readBlock_keys hkeys hblock))
  | address h => exact parse_of_stepLine (stepLine_address h hsearch)
  | @located head line gap addr source h hgap hline =>
    have hfind : findSource readers (gap ++ [line] ++ rest) = .ok (some source, line :: rest) := by
      rw [List.append_assoc, findSource_skipped fun l hl => (hgap l hl).skipped,
        List.singleton_append, findSource, hline]
    have hopening := opening_of_sourceOf hline
    rw [List.cons_append, parse_of_stepLine (stepLine_address h hfind)]
    -- the source line itself is looked at again, and means nothing then
    refine parse_of_stepLine (stepLine_other (seTimeOf_eq_none ?_) (qifTimeOf_eq_none ?_)
      (divergentOf_eq_none ?_) ?_)
    · rw [hopening]
      decide
    · rw [hopening]
      decide
    · rw [hopening]
      decide
    · rw [Option.eq_none_iff_forall_ne_some]
      intro other hother
      exact absurd (Option.some.inj (hopening.symm.trans (opening_of_addressOf hother)))
        (by decide)

/-- A search stops at the lines of an address. -/
theorem findSource_address {r : LogRecord F} {lines : List Text} (hr : PrintedAs readers r lines)
    (haddress : r.isAddress = true) :
    findSource readers (lines ++ rest) = .ok (none, lines ++ rest) := by
  have hstop : ∀ {head : Text} {addr : Int} {more : List Text},
      addressOf readers head = some (.ok addr) →
        findSource readers (head :: more) = .ok (none, head :: more) := by
    intro head addr more h
    have hnone : sourceOf readers head = none := by
      rw [Option.eq_none_iff_forall_ne_some]
      intro source hsource
      exact absurd (Option.some.inj ((opening_of_addressOf h).symm.trans
        (opening_of_sourceOf hsource))) (by decide)
    rw [findSource, hnone, h]
    rfl
  cases hr with
  | seTime h => cases haddress
  | qifTime h => cases haddress
  | divergent h hkeys => cases haddress
  | address h => exact hstop h
  | located h hgap hline => exact hstop h

/-- **All records**: the loop collects those that are heard, also behind a search. -/
theorem parse_logOf {rs : List (LogRecord F)} {lines : List Text} (h : LogOf readers rs lines) :
    (∀ log, parseAbacusLines readers conv log lines =
      .ok ((heard false rs).foldl (AbacusLog.note conv) log)) ∧
    ∃ after, findSource readers lines = .ok (none, after) ∧
      ∀ log, parseAbacusLines readers conv log after =
        .ok ((heard true rs).foldl (AbacusLog.note conv) log) := by
  induction h with
  | @done gap hgap =>
    have hend : ∀ log, parseAbacusLines readers conv log [] = .ok log := fun log => by
      rw [parseAbacusLines]
    refine ⟨fun log => ?_, [], ?_, hend⟩
    · rw [← List.append_nil gap, parse_unrelated hgap, hend]
      rfl
    · rw [← List.append_nil gap, findSource_skipped fun l hl => (hgap l hl).skipped]
      rfl
  | @record gap lines rest r rs hgap hr hrs ih =>
    obtain ⟨ihread, after, hafter, ihsearch⟩ := ih
    -- from the first line of the record on, nothing depends on a search before it
    have hrecord : ∀ log, parseAbacusLines readers conv log (lines ++ rest) =
        .ok ((heard false (r :: rs)).foldl (AbacusLog.note conv) log) := by
      intro log
      rw [parse_printedAs hr (readBlock_of_logOf hrs) hafter, heard]
      cases hlacks : r.lacksSource with
      | true =>
        have haddress : r.isAddress = true := by
          cases r with
          | address addr source => rfl
          | _ => cases hlacks
        rw [if_pos haddress, if_pos rfl]
        exact ihsearch _
      | false =>
        rw [if_neg Bool.false_ne_true, if_neg Bool.false_ne_true, ite_self]
        exact ihread _
    have hskip : ∀ more, findSource readers (gap ++ more) = findSource readers more := fun more =>
      findSource_skipped fun l hl => (hgap l hl).skipped
    refine ⟨fun log => ?_, ?_⟩
    · rw [parse_unrelated hgap]
      exact hrecord log
    · rw [hskip]
      by_cases haddress : r.isAddress = true
      · refine ⟨_, findSource_address hr haddress, fun log => ?_⟩
        rw [hrecord log, heard, heard, if_pos haddress, if_pos haddress]
      · refine ⟨after, ?_, fun log => ?_⟩
        · rw [findSource_skipped (hr.skipped (Bool.eq_false_iff.mpr haddress))]
          exact hafter
        · rw [heard, if_neg haddress, if_pos rfl]
          exact ihsearch log

end Collecting

/-! ### What the records say -/

/-- What a record is about. -/
inductive Slot where
  | seTime
  | qifTime
  | block (addr : Int)
  | address (addr : Int)
  deriving DecidableEq

/-- What a record is about: a log has one of each time at most, and one block and one address
record for each address. -/
def LogRecord.slot {F : Type} : LogRecord F → Slot
  | .seTime _ => .seTime
  | .qifTime _ => .qifTime
  | .divergent addr _ => .block addr
  | .address addr _ => .address addr

section Recovery

variable {F : Type} {conv : AbacusConversion} {log : AbacusLog F} {rs : List (LogRecord F)}
  {r : LogRecord F}

/-- **Exactly** the times, the blocks whose values are bytes, and the addresses with a source
line were collected. -/
structure Recovered (conv : AbacusConversion) (log : AbacusLog F) (rs : List (LogRecord F)) :
    Prop where
  seTime : ∀ time, log.seTime = some time ↔ .seTime time ∈ rs
  qifTime : ∀ time, log.qifTime = some time ↔ .qifTime time ∈ rs
  divergent : ∀ addr a, log.divergent.get? addr = some a ↔
    ∃ entries, .divergent addr entries ∈ rs ∧ AreBytes entries ∧ assignmentOf entries = a
  location : ∀ addr l, log.locations.get? addr = some l ↔
    ∃ source, .address addr (some source) ∈ rs ∧ locate conv source = l

theorem recovered_start : Recovered (F := F) conv .start [] where
  seTime time := by simp [AbacusLog.start]
  qifTime time := by simp [AbacusLog.start]
  divergent addr a := by simp [AbacusLog.start]
  location addr l := by simp [AbacusLog.start]

theorem Recovered.seTime_append (h : Recovered conv log rs) (hr : ∀ time, r ≠ .seTime time)
    (time : F) : log.seTime = some time ↔ .seTime time ∈ rs ++ [r] := by
  simp [h.seTime, Ne.symm (hr time)]

theorem Recovered.qifTime_append (h : Recovered conv log rs) (hr : ∀ time, r ≠ .qifTime time)
    (time : F) : log.qifTime = some time ↔ .qifTime time ∈ rs ++ [r] := by
  simp [h.qifTime, Ne.symm (hr time)]

theorem Recovered.divergent_append (h : Recovered conv log rs) {addr : Int}
    (hr : ∀ entries, r = .divergent addr entries → ¬ AreBytes entries) (a : DivergentAssignment) :
    log.divergent.get? addr = some a ↔
      ∃ entries, .divergent addr entries ∈ rs ++ [r] ∧ AreBytes entries ∧
        assignmentOf entries = a := by
  rw [h.divergent]
  refine exists_congr fun entries => ?_
  rw [List.mem_append, List.mem_singleton]
  constructor
  · exact fun ⟨hmem, hrest⟩ => ⟨Or.inl hmem, hrest⟩
  · rintro ⟨hmem | rfl, hbytes, ha⟩
    · exact ⟨hmem, hbytes, ha⟩
    · exact absurd hbytes (hr entries rfl)

theorem Recovered.location_append (h : Recovered conv log rs) {addr : Int}
    (hr : ∀ source, r ≠ .address addr (some source)) (l : AbacusLocation) :
    log.locations.get? addr = some l ↔
      ∃ source, .address addr (some source) ∈ rs ++ [r] ∧ locate conv source = l := by
  rw [h.location]
  refine exists_congr fun source => ?_
  rw [List.mem_append, List.mem_singleton, or_iff_left (Ne.symm (hr source))]

/-- A record about something new adds what it says. -/
theorem Recovered.note (h : Recovered conv log rs) (hr : r.slot ∉ rs.map LogRecord.slot) :
    Recovered conv (log.note conv r) (rs ++ [r]) := by
  have hnew : ∀ q ∈ rs, q.slot ≠ r.slot := fun q hq heq => hr (heq ▸ List.mem_map_of_mem hq)
  cases r with
  | seTime time =>
    refine ⟨fun t => ?_, h.qifTime_append (by simp), fun addr => h.divergent_append (by simp),
      fun addr => h.location_append (by simp)⟩
    have hno : .seTime t ∉ rs := fun hmem => hnew _ hmem rfl
    simp [AbacusLog.note, hno, eq_comm]
  | qifTime time =>
    refine ⟨h.seTime_append (by simp), fun t => ?_, fun addr => h.divergent_append (by simp),
      fun addr => h.location_append (by simp)⟩
    have hno : .qifTime t ∉ rs := fun hmem => hnew _ hmem rfl
    simp [AbacusLog.note, hno, eq_comm]
  | divergent addr entries =>
    rw [AbacusLog.note, AbacusLog.addBlock]
    split
    · next hbytes =>
      refine ⟨h.seTime_append (by simp), h.qifTime_append (by simp), fun addr' a => ?_,
        fun addr' => h.location_append (by simp)⟩
      rw [Dict.get?_set]
      split
      · next heq =>
        -- the block of this address: no record before it is about the same slot
        subst heq
        have hno : ∀ entries', .divergent addr entries' ∉ rs := fun entries' hmem =>
          hnew _ hmem rfl
        simp [hno, hbytes]
      · next hne => exact h.divergent_append (by simp [hne]) a
    · next hbytes =>
      -- a block with values that are no bytes is not stored
      refine ⟨h.seTime_append (by simp), h.qifTime_append (by simp),
        fun addr' => h.divergent_append fun entries' heq => ?_,
        fun addr' => h.location_append (by simp)⟩
      obtain ⟨-, rfl⟩ := LogRecord.divergent.inj heq
      exact hbytes
  | address addr source =>
    cases source with
    | none =>
      exact ⟨h.seTime_append (by simp), h.qifTime_append (by simp),
        fun addr' => h.divergent_append (by simp), fun addr' => h.location_append (by simp)⟩
    | some source =>
      refine ⟨h.seTime_append (by simp), h.qifTime_append (by simp),
        fun addr' => h.divergent_append (by simp), fun addr' l => ?_⟩
      show (log.locations.set addr (locate conv source)).get? addr' = some l ↔ _
      rw [Dict.get?_set]
      split
      · next heq =>
        subst heq
        have hno : ∀ source', .address addr (some source') ∉ rs := fun source' hmem =>
          hnew _ hmem rfl
        simp [hno]
      · next hne => exact h.location_append (by simp [hne]) l

/-- Records about different things are all recovered. -/
theorem recovered_foldl (hnodup : (rs.map LogRecord.slot).Nodup) :
    Recovered conv (rs.foldl (AbacusLog.note conv) .start) rs := by
  induction rs using List.reverseRecOn with
  | nil => exact recovered_start
  | append_singleton rs r ih =>
    rw [List.map_append, List.map_singleton, List.nodup_append] at hnodup
    rw [List.foldl_append]
    refine (ih hnodup.1).note fun hmem => ?_
    exact hnodup.2.2 _ hmem _ (List.mem_singleton_self _) rfl

/-! ### What a search runs over -/

theorem heard_sublist (searching : Bool) (rs : List (LogRecord F)) :
    (heard searching rs).Sublist rs := by
  induction rs generalizing searching with
  | nil => exact List.Sublist.refl _
  | cons r rest ih =>
    rw [heard]
    split
    · exact (ih _).cons_cons r
    · split
      · exact (ih _).cons r
      · exact (ih _).cons_cons r

/-- The record stands behind an address without a source line, and before the next address. -/
def Swallowed (rs : List (LogRecord F)) (r : LogRecord F) : Prop :=
  ∃ before addr between after, rs = before ++ .address addr none :: (between ++ r :: after) ∧
    ∀ q ∈ r :: between, q.isAddress = false

/-- The record says something that should be recovered. -/
def LogRecord.Carries : LogRecord F → Prop
  | .divergent _ entries => AreBytes entries
  | .address _ source => source.isSome
  | _ => True

theorem Swallowed.cons (q : LogRecord F) (h : Swallowed rs r) : Swallowed (q :: rs) r := by
  obtain ⟨before, addr, between, after, rfl, hbetween⟩ := h
  exact ⟨q :: before, addr, between, after, rfl, hbetween⟩

/-- What is not heard was swallowed, by an address of the list or by a search before it. -/
theorem mem_heard_or (searching : Bool) (hr : r ∈ rs) :
    r ∈ heard searching rs ∨ Swallowed rs r ∨ searching = true ∧
      ∃ between after, rs = between ++ r :: after ∧ ∀ q ∈ r :: between, q.isAddress = false := by
  induction rs generalizing searching with
  | nil => cases hr
  | cons q rest ih =>
    rw [heard]
    by_cases hq : q.isAddress = true
    · rw [if_pos hq]
      rcases List.mem_cons.mp hr with rfl | hr
      · exact .inl List.mem_cons_self
      · rcases ih q.lacksSource hr with h | h | ⟨hlacks, between, after, rfl, hbetween⟩
        · exact .inl (List.mem_cons_of_mem q h)
        · exact .inr (.inl (h.cons q))
        · -- the search of this address
          match q, hlacks with
          | .address addr none, _ => exact .inr (.inl ⟨[], addr, between, after, rfl, hbetween⟩)
    · rw [if_neg hq]
      have hq := Bool.eq_false_iff.mpr hq
      cases searching with
      | false =>
        rw [if_neg Bool.false_ne_true]
        rcases List.mem_cons.mp hr with rfl | hr
        · exact .inl List.mem_cons_self
        · rcases ih false hr with h | h | ⟨hfalse, -⟩
          · exact .inl (List.mem_cons_of_mem q h)
          · exact .inr (.inl (h.cons q))
          · cases hfalse
      | true =>
        rw [if_pos rfl]
        rcases List.mem_cons.mp hr with rfl | hr
        · exact .inr (.inr ⟨rfl, [], rest, rfl, fun p hp => by
            rwa [List.mem_singleton.mp hp]⟩)
        · rcases ih true hr with h | h | ⟨-, between, after, rfl, hbetween⟩
          · exact .inl h
          · exact .inr (.inl (h.cons q))
          · refine .inr (.inr ⟨rfl, q :: between, after, rfl, fun p hp => ?_⟩)
            rcases List.mem_cons.mp hp with rfl | hp
            · exact hbetween _ List.mem_cons_self
            · rcases List.mem_cons.mp hp with rfl | hp
              · exact hq
              · exact hbetween p (List.mem_cons_of_mem r hp)

theorem mem_heard_or_swallowed (hr : r ∈ rs) : r ∈ heard false rs ∨ Swallowed rs r := by
  rcases mem_heard_or false hr with h | h | ⟨hfalse, -⟩
  · exact .inl h
  · exact .inr h
  · cases hfalse

/-- A search runs over everything up to the next address. -/
theorem heard_skip {between : List (LogRecord F)} (h : ∀ q ∈ between, q.isAddress = false)
    (after : List (LogRecord F)) : heard true (between ++ after) = heard true after := by
  induction between with
  | nil => rfl
  | cons q between ih =>
    rw [List.cons_append, heard, if_neg (by rw [h q List.mem_cons_self]; exact Bool.false_ne_true),
      if_pos rfl]
    exact ih fun p hp => h p (List.mem_cons_of_mem q hp)

theorem heard_address (searching : Bool) (before rest : List (LogRecord F)) (addr : Int) :
    heard searching (before ++ .address addr none :: rest) =
      heard searching before ++ .address addr none :: heard true rest := by
  induction before generalizing searching with
  | nil => rfl
  | cons q before ih =>
    rw [List.cons_append, heard, heard]
    split
    · rw [ih]
      rfl
    · split
      · exact ih true
      · rw [ih]
        rfl

/-- A record that was swallowed is not heard elsewhere. -/
theorem Swallowed.notMem_heard (h : Swallowed rs r) (hnodup : (rs.map LogRecord.slot).Nodup) :
    r ∉ heard false rs := by
  obtain ⟨before, addr, between, after, rfl, hbetween⟩ := h
  intro hmem
  have hrs := List.Nodup.of_map LogRecord.slot hnodup
  rw [heard_address, heard_skip fun q hq => hbetween q (List.mem_cons_of_mem r hq), heard,
    if_neg (by rw [hbetween r List.mem_cons_self]; exact Bool.false_ne_true), if_pos rfl] at hmem
  rw [List.nodup_append, List.nodup_cons, List.nodup_append, List.nodup_cons] at hrs
  obtain ⟨-, ⟨haddr, -, ⟨hafter, -⟩, -⟩, hbefore⟩ := hrs
  have hr : r ∈ between ++ r :: after := List.mem_append_right _ List.mem_cons_self
  rcases List.mem_append.mp hmem with hmem | hmem
  · exact hbefore r ((heard_sublist false before).subset hmem) r (List.mem_cons_of_mem _ hr) rfl
  · rcases List.mem_cons.mp hmem with rfl | hmem
    · exact haddr hr
    · exact hafter ((heard_sublist true after).subset hmem)

end Recovery

end KleeDeps.Converters

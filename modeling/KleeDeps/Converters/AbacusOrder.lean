import KleeDeps.Converters.AbacusRecords
import KleeDeps.Py.Collect

/-!
# The order of the records of an ABACUS log

- `recovered_heard_iff`: everything is recovered unless a search runs over a time or over a block
  whose values are bytes;
- `abacusRows_congr`: the rows depend on what is recovered only;
- `exists_logOf_perm`: the records of a log can be printed in any order;
- `lossless_iff`: **no record is lost and the order does not matter** exactly if every address has
  its source line, or there is nothing to lose.
-/

namespace KleeDeps.Converters

open Py Replay SortedSearch

section Order

variable {F : Type} {readers : AbacusReaders F} {conv : AbacusConversion} {log log' : AbacusLog F}
  {rs rs' : List (LogRecord F)} {r : LogRecord F}

/-! ### Which records are recovered -/

/-- Two records about the same thing are one. -/
theorem eq_of_slot (hnodup : (rs.map LogRecord.slot).Nodup) {q : LogRecord F} (hr : r ∈ rs)
    (hq : q ∈ rs) (h : r.slot = q.slot) : r = q :=
  List.inj_on_of_nodup_map hnodup hr hq h

/-- A record that carries something and was recovered was heard. -/
theorem mem_heard_of_recovered (hnodup : (rs.map LogRecord.slot).Nodup)
    (h : Recovered conv log rs) (hlog : Recovered conv log (heard false rs)) (hr : r ∈ rs)
    (hcarries : r.Carries) : r ∈ heard false rs := by
  have hsub := (heard_sublist false rs).subset
  cases r with
  | seTime time => exact (hlog.seTime time).mp ((h.seTime time).mpr hr)
  | qifTime time => exact (hlog.qifTime time).mp ((h.qifTime time).mpr hr)
  | divergent addr entries =>
    obtain ⟨entries', hmem, -, -⟩ := (hlog.divergent addr _).mp
      ((h.divergent addr _).mpr ⟨entries, hr, hcarries, rfl⟩)
    rwa [eq_of_slot hnodup hr (hsub hmem) rfl]
  | address addr source =>
    obtain ⟨source, rfl⟩ := Option.isSome_iff_exists.mp hcarries
    obtain ⟨source', hmem, -⟩ := (hlog.location addr _).mp
      ((h.location addr _).mpr ⟨source, hr, rfl⟩)
    rwa [eq_of_slot hnodup hr (hsub hmem) rfl]

/-- Some records that are among others and have all that these carry recover the same. -/
theorem Recovered.of_subset (h : Recovered conv log rs') (hsub : ∀ q ∈ rs', q ∈ rs)
    (hcarries : ∀ q ∈ rs, q.Carries → q ∈ rs') : Recovered conv log rs where
  seTime time := (h.seTime time).trans ⟨hsub _, fun hq => hcarries _ hq trivial⟩
  qifTime time := (h.qifTime time).trans ⟨hsub _, fun hq => hcarries _ hq trivial⟩
  divergent addr a := (h.divergent addr a).trans
    ⟨fun ⟨entries, hq, hbytes, ha⟩ => ⟨entries, hsub _ hq, hbytes, ha⟩,
      fun ⟨entries, hq, hbytes, ha⟩ => ⟨entries, hcarries _ hq hbytes, hbytes, ha⟩⟩
  location addr l := (h.location addr l).trans
    ⟨fun ⟨source, hq, hl⟩ => ⟨source, hsub _ hq, hl⟩,
      fun ⟨source, hq, hl⟩ => ⟨source, hcarries _ hq rfl, hl⟩⟩

/-- **Everything is recovered** unless something that carries data was swallowed. -/
theorem recovered_heard_iff (hnodup : (rs.map LogRecord.slot).Nodup)
    (hlog : Recovered conv log (heard false rs)) :
    Recovered conv log rs ↔ ∀ q, Swallowed rs q → ¬q.Carries := by
  constructor
  · intro h q hq hcarries
    have hmem : q ∈ rs := by
      obtain ⟨before, addr, between, after, rfl, -⟩ := hq
      simp
    exact hq.notMem_heard hnodup (mem_heard_of_recovered hnodup h hlog hmem hcarries)
  · intro h
    refine hlog.of_subset (fun q hq => (heard_sublist false rs).subset hq) fun q hq hcarries => ?_
    rcases mem_heard_or_swallowed hq with hheard | hswallowed
    · exact hheard
    · exact absurd hcarries (h q hswallowed)

/-- What the loop has collected at the end of a log. -/
theorem exists_parse {content : Text} (h : LogOf readers rs (abacusLines content))
    (hnodup : (rs.map LogRecord.slot).Nodup) (conv : AbacusConversion) :
    ∃ log, parseAbacusLines readers conv .start (abacusLines content) = .ok log ∧
      Recovered conv log (heard false rs) :=
  ⟨_, (parse_logOf h).1 .start,
    recovered_foldl (((heard_sublist false rs).map LogRecord.slot).nodup hnodup)⟩

/-! ### The rows -/

/-- The addresses of the rows. -/
theorem mem_addresses_iff {addr : Int} :
    addr ∈ sortedSet (log.divergent.keys ++ log.locations.keys) ↔
      (∃ a, log.divergent.get? addr = some a) ∨ ∃ l, log.locations.get? addr = some l := by
  rw [mem_sortedSet, List.mem_append, Dict.mem_keys_iff, Dict.mem_keys_iff]

/-- **The rows depend on what the log says of each address**, and on the time. -/
theorem abacusRows_congr (hdivergent : ∀ addr, log.divergent.get? addr = log'.divergent.get? addr)
    (hlocation : ∀ addr, log.locations.get? addr = log'.locations.get? addr)
    (htime : (∃ addr, addr ∈ sortedSet (log.divergent.keys ++ log.locations.keys)) →
      log.nonCtTime readers = log'.nonCtTime readers) :
    abacusRows readers conv log = abacusRows readers conv log' := by
  have haddresses : sortedSet (log.divergent.keys ++ log.locations.keys) =
      sortedSet (log'.divergent.keys ++ log'.locations.keys) := by
    refine (pairwise_sortedSet _).eq_of_mem_iff (pairwise_sortedSet _) fun addr => ?_
    rw [mem_addresses_iff, mem_addresses_iff, hdivergent, hlocation]
  have hrows : (sortedSet (log.divergent.keys ++ log.locations.keys)).mapM
      (addressRow readers conv log) =
        (sortedSet (log.divergent.keys ++ log.locations.keys)).mapM
          (addressRow readers conv log') := by
    refine Sequence.mapM_congr fun addr haddr => ?_
    have hrow : ∀ kind, log.row readers kind addr = log'.row readers kind addr := fun kind => by
      rw [AbacusLog.row, AbacusLog.row, hlocation, htime ⟨addr, haddr⟩]
    rw [addressRow, addressRow, hdivergent]
    simp only [hrow]
  rw [abacusRows, abacusRows, hrows, haddresses]

/-! ### Other orders -/

theorem rdropWhile_newline {u : Text} (h : '\n' ∉ u) : u.rdropWhile (· = '\n') = u := by
  rw [List.rdropWhile_eq_self_iff]
  intro hne hlast
  exact h (of_decide_eq_true hlast ▸ List.getLast_mem hne)

/-- The lines of a log hold no line ends. -/
theorem clean_of_mem_abacusLines {content l : Text} (h : l ∈ abacusLines content) :
    '\n' ∉ l ∧ '\r' ∉ l := by
  obtain ⟨line, hline, rfl⟩ := List.mem_map.mp h
  obtain ⟨u, hu, hno, hsub⟩ := exists_of_mem_readlines hline
  have hstrip : line.rdropWhile (· = '\n') = u := by
    rcases hu with rfl | rfl
    · exact rdropWhile_newline hno
    · rw [List.rdropWhile_concat_pos _ _ _ (by simp)]
      exact rdropWhile_newline hno
  rw [hstrip]
  exact ⟨hno, fun hmem => notMem_universalNewlines content (hsub _ hmem)⟩

/-- Printed lines are read as they are. -/
theorem abacusLines_unlines {lines : List Text} (h : ∀ l ∈ lines, '\n' ∉ l ∧ '\r' ∉ l) :
    abacusLines (unlines lines) = lines := by
  have hr : '\r' ∉ unlines lines := by
    simp only [unlines, List.mem_flatMap, List.mem_append, List.mem_singleton, not_exists, not_and,
      not_or]
    exact fun l hl => ⟨(h l hl).2, by decide⟩
  rw [abacusLines, universalNewlines_of_notMem hr, readlines_unlines fun l hl => (h l hl).1,
    List.map_map]
  refine (List.map_congr_left fun l hl => ?_).trans (List.map_id lines)
  show (l ++ ['\n']).rdropWhile _ = l
  rw [List.rdropWhile_concat_pos _ _ _ (by simp)]
  exact rdropWhile_newline (h l hl).1

/-- Every record of a log has lines of its own. -/
theorem exists_lines_of_logOf {lines : List Text} (h : LogOf readers rs lines) (hr : r ∈ rs) :
    ∃ ls, PrintedAs readers r ls ∧ ∀ l ∈ ls, l ∈ lines := by
  induction h with
  | done hgap => cases hr
  | @record gap ls rest q rs hgap hq hrs ih =>
    rcases List.mem_cons.mp hr with rfl | hr
    · exact ⟨ls, hq, fun l hl => List.mem_append_right _ (List.mem_append_left _ hl)⟩
    · obtain ⟨ls', hls', hsub⟩ := ih hr
      exact ⟨ls', hls', fun l hl => List.mem_append_right _ (List.mem_append_right _ (hsub l hl))⟩

theorem LogOf.nil : LogOf readers [] [] := .done fun _ hl => absurd hl List.not_mem_nil

/-- A record in front of others, with no line between. -/
theorem PrintedAs.followedBy {ls lines : List Text} (hr : PrintedAs readers r ls)
    (hrs : LogOf readers rs lines) : LogOf readers (r :: rs) (ls ++ lines) :=
  @LogOf.record F readers [] ls lines r rs (fun _ hl => absurd hl List.not_mem_nil) hr hrs

/-- Records that can be printed can be printed one after the other. -/
theorem exists_logOf {P : Text → Prop}
    (h : ∀ q ∈ rs, ∃ ls, PrintedAs readers q ls ∧ ∀ l ∈ ls, P l) :
    ∃ lines, LogOf readers rs lines ∧ ∀ l ∈ lines, P l := by
  induction rs with
  | nil => exact ⟨[], .nil, fun l hl => absurd hl List.not_mem_nil⟩
  | cons q rs ih =>
    obtain ⟨lines, hlines, hP⟩ := ih fun p hp => h p (List.mem_cons_of_mem q hp)
    obtain ⟨ls, hls, hPls⟩ := h q List.mem_cons_self
    refine ⟨ls ++ lines, hls.followedBy hlines, fun l hl => ?_⟩
    rcases List.mem_append.mp hl with hl | hl
    · exact hPls l hl
    · exact hP l hl

/-- **The records of a log in any other order** are those of another log. -/
theorem exists_logOf_perm {content : Text} (h : LogOf readers rs (abacusLines content))
    (hperm : rs.Perm rs') : ∃ content', LogOf readers rs' (abacusLines content') := by
  obtain ⟨lines, hlines, hclean⟩ := exists_logOf (P := fun l => '\n' ∉ l ∧ '\r' ∉ l)
    fun q (hq : q ∈ rs') => by
      obtain ⟨ls, hls, hsub⟩ := exists_lines_of_logOf h (hperm.mem_iff.mpr hq)
      exact ⟨ls, hls, fun l hl => clean_of_mem_abacusLines (hsub l hl)⟩
  exact ⟨unlines lines, by rwa [abacusLines_unlines hclean]⟩

/-- Behind an address without a source line all records but addresses can be hidden. -/
theorem exists_hiding {content : Text} (h : LogOf readers rs (abacusLines content))
    (hnodup : (rs.map LogRecord.slot).Nodup) (hr : r ∈ rs) (hlacks : r.lacksSource = true) :
    ∃ rs' content', rs.Perm rs' ∧ LogOf readers rs' (abacusLines content') ∧
      ∀ q ∈ heard false rs', q.isAddress = true := by
  obtain ⟨addr, rfl⟩ : ∃ addr, r = .address addr none := by
    match r, hlacks with
    | .address addr none, _ => exact ⟨addr, rfl⟩
  obtain ⟨before, after, hsplit⟩ := List.append_of_mem hr
  -- the address, then everything that is none, then the other addresses
  have hperm : rs.Perm (.address addr none :: ((before ++ after).filter (fun q => !q.isAddress) ++
      (before ++ after).filter fun q => q.isAddress)) := by
    rw [hsplit]
    refine List.perm_middle.trans (.cons _ ?_)
    have hparts := List.filter_append_perm (fun q : LogRecord F => !q.isAddress) (before ++ after)
    simp only [Bool.not_not] at hparts
    exact hparts.symm
  obtain ⟨content', hcontent'⟩ := exists_logOf_perm h hperm
  refine ⟨_, content', hperm, hcontent', fun q hq => ?_⟩
  cases hq' : q.isAddress with
  | true => rfl
  | false =>
    refine absurd hq (Swallowed.notMem_heard ?_ ((hperm.map LogRecord.slot).nodup hnodup))
    have hmem : q ∈ (before ++ after).filter fun q => !q.isAddress := by
      rcases List.mem_cons.mp ((heard_sublist false _).subset hq) with rfl | hmem
      · cases hq'
      · rcases List.mem_append.mp hmem with hmem | hmem
        · exact hmem
        · rw [List.mem_filter, hq'] at hmem
          exact absurd hmem.2 Bool.false_ne_true
    obtain ⟨between, behind, hmore⟩ := List.append_of_mem hmem
    refine ⟨[], addr, between, behind ++ (before ++ after).filter fun q => q.isAddress, ?_,
      fun p hp => ?_⟩
    · rw [hmore]
      simp
    · rcases List.mem_cons.mp hp with rfl | hp
      · exact hq'
      · have hp : p ∈ (before ++ after).filter fun q => !q.isAddress := by
          rw [hmore]
          exact List.mem_append_left _ hp
        simpa using (List.mem_filter.mp hp).2

/-! ### The claim -/

/-- **No record is lost**: whatever the other arguments are, exactly the records are recovered,
and the records in any other order, with any other lines between them, give the same rows. -/
structure Lossless (readers : AbacusReaders F) (rs : List (LogRecord F)) (content : Text) :
    Prop where
  recovered : ∀ conv, ∃ log, parseAbacusLines readers conv .start (abacusLines content) = .ok log ∧
    Recovered conv log rs
  order : ∀ rs' content', rs.Perm rs' → LogOf readers rs' (abacusLines content') → ∀ conv,
    convertAbacusLog readers conv content' = convertAbacusLog readers conv content

/-- No block whose values are bytes, and no row that would have a time. -/
structure NothingToLose (rs : List (LogRecord F)) : Prop where
  blocks : ∀ addr entries, .divergent addr entries ∈ rs → ¬AreBytes entries
  times : ∀ se qif addr source, .seTime se ∈ rs → .qifTime qif ∈ rs →
    .address addr (some source) ∉ rs

/-- No time and no block of bytes stands between an address without a source line and the next
address; and either all addresses have a source line, or no order has anything to lose. -/
structure InReach (rs : List (LogRecord F)) : Prop where
  heard : ∀ q, Swallowed rs q → ¬q.Carries
  order : (∀ q ∈ rs, q.lacksSource = false) ∨ NothingToLose rs

theorem Recovered.perm (h : Recovered conv log rs) (hperm : rs.Perm rs') :
    Recovered conv log rs' :=
  h.of_subset (fun _ hq => hperm.mem_iff.mp hq) fun _ hq _ => hperm.mem_iff.mpr hq

theorem Swallowed.exists_lacksSource (h : Swallowed rs r) : ∃ q ∈ rs, q.lacksSource = true := by
  obtain ⟨before, addr, between, after, rfl, -⟩ := h
  exact ⟨.address addr none, by simp, rfl⟩

/-- What the same records say is the same. -/
theorem abacusRows_of_recovered (h : Recovered conv log rs) (h' : Recovered conv log' rs) :
    abacusRows readers conv log = abacusRows readers conv log' := by
  have hse : log.seTime = log'.seTime := Option.ext fun t => (h.seTime t).trans (h'.seTime t).symm
  have hqif : log.qifTime = log'.qifTime :=
    Option.ext fun t => (h.qifTime t).trans (h'.qifTime t).symm
  refine abacusRows_congr (fun addr => Option.ext fun a =>
    (h.divergent addr a).trans (h'.divergent addr a).symm) (fun addr => Option.ext fun l =>
      (h.location addr l).trans (h'.location addr l).symm) fun _ => ?_
  rw [AbacusLog.nonCtTime, AbacusLog.nonCtTime, hse, hqif]

/-- The addresses that are recovered do not depend on the order. -/
theorem location_of_heard (h : Recovered conv log (heard false rs)) (addr : Int)
    (l : AbacusLocation) : log.locations.get? addr = some l ↔
      ∃ source, .address addr (some source) ∈ rs ∧ locate conv source = l := by
  rw [h.location]
  constructor
  · rintro ⟨source, hmem, hl⟩
    exact ⟨source, (heard_sublist false rs).subset hmem, hl⟩
  · rintro ⟨source, hmem, hl⟩
    refine ⟨source, ?_, hl⟩
    rcases mem_heard_or_swallowed hmem with hheard | ⟨before, a, between, after, -, hbetween⟩
    · exact hheard
    · exact absurd (hbetween _ List.mem_cons_self) (by simp [LogRecord.isAddress])

/-- With nothing to lose the rows are those of the addresses. -/
theorem abacusRows_of_nothingToLose (hnothing : NothingToLose rs) (hperm : rs.Perm rs')
    (h : Recovered conv log rs) (h' : Recovered conv log' (heard false rs')) :
    abacusRows readers conv log' = abacusRows readers conv log := by
  have hsub : ∀ q ∈ heard false rs', q ∈ rs := fun q hq =>
    hperm.mem_iff.mpr ((heard_sublist false rs').subset hq)
  have hblocks : ∀ addr, log.divergent.get? addr = none := fun addr => by
    rw [Option.eq_none_iff_forall_ne_some]
    intro a ha
    obtain ⟨entries, hmem, hbytes, -⟩ := (h.divergent addr a).mp ha
    exact hnothing.blocks addr entries hmem hbytes
  have hblocks' : ∀ addr, log'.divergent.get? addr = none := fun addr => by
    rw [Option.eq_none_iff_forall_ne_some]
    intro a ha
    obtain ⟨entries, hmem, hbytes, -⟩ := (h'.divergent addr a).mp ha
    exact hnothing.blocks addr entries (hsub _ hmem) hbytes
  refine abacusRows_congr (fun addr => (hblocks' addr).trans (hblocks addr).symm)
    (fun addr => Option.ext fun l => ?_) fun ⟨addr, haddr⟩ => ?_
  · rw [location_of_heard h', h.location]
    simp only [hperm.mem_iff]
  · -- a row is there, so that one of the times is not
    have hlocation : ∃ source, .address addr (some source) ∈ rs := by
      rcases mem_addresses_iff.mp haddr with ⟨a, ha⟩ | ⟨l, hl⟩
      · rw [hblocks'] at ha
        cases ha
      · obtain ⟨source, hmem, -⟩ := (h'.location addr l).mp hl
        exact ⟨source, hsub _ hmem⟩
    obtain ⟨source, hsource⟩ := hlocation
    have htimes : ∀ {other : AbacusLog F}, (∀ t, other.seTime = some t → .seTime t ∈ rs) →
        (∀ t, other.qifTime = some t → .qifTime t ∈ rs) → other.nonCtTime readers = none := by
      intro other hse hqif
      unfold AbacusLog.nonCtTime
      split
      · next se qif hs hq => exact absurd hsource (hnothing.times _ _ _ _ (hse _ hs) (hqif _ hq))
      · rfl
    rw [htimes (fun t ht => hsub _ ((h'.seTime t).mp ht))
      fun t ht => hsub _ ((h'.qifTime t).mp ht),
      htimes (fun t ht => (h.seTime t).mp ht) fun t ht => (h.qifTime t).mp ht]

theorem convertAbacusLog_of_parse {content : Text}
    (h : parseAbacusLines readers conv .start (abacusLines content) = .ok log) :
    convertAbacusLog readers conv content = abacusRows readers conv log := by
  rw [convertAbacusLog, h]

/-- What is in reach is not lost. -/
theorem lossless_of_inReach {content : Text} (h : LogOf readers rs (abacusLines content))
    (hnodup : (rs.map LogRecord.slot).Nodup) (hreach : InReach rs) :
    Lossless readers rs content := by
  have hrecovered : ∀ conv, ∃ log,
      parseAbacusLines readers conv .start (abacusLines content) = .ok log ∧
        Recovered conv log rs := fun conv => by
    obtain ⟨log, hparse, hlog⟩ := exists_parse h hnodup conv
    exact ⟨log, hparse, (recovered_heard_iff hnodup hlog).mpr hreach.heard⟩
  refine ⟨hrecovered, fun rs' content' hperm h' conv => ?_⟩
  have hnodup' := (hperm.map LogRecord.slot).nodup hnodup
  obtain ⟨log, hparse, hlog⟩ := hrecovered conv
  obtain ⟨log', hparse', hlog'⟩ := exists_parse h' hnodup' conv
  rw [convertAbacusLog_of_parse hparse, convertAbacusLog_of_parse hparse']
  rcases hreach.order with hall | hnothing
  · have hrecovered' : Recovered conv log' rs' := by
      refine (recovered_heard_iff hnodup' hlog').mpr fun q hq => ?_
      obtain ⟨p, hp, hlacks⟩ := hq.exists_lacksSource
      rw [hall p (hperm.mem_iff.mpr hp)] at hlacks
      cases hlacks
    exact abacusRows_of_recovered (hrecovered'.perm hperm.symm) hlog
  · exact abacusRows_of_nothingToLose hnothing hperm hlog hlog'

/-! ### What an order can lose -/

/-- A conversion that accepts every address, knows no secrets and names files from the root. -/
def probe : AbacusConversion where
  executable := "a".toList
  cwd := "/".toList
  codeRoot := some "/".toList
  library := []
  layout := []
  instructionText _ := .ok "jmp".toList
  sourceLine _ _ _ := none

/-- Without secrets there is nothing a divergent input could assign. -/
theorem buildCounterexamples_nil {entries : List KeyEntry} (h : AreBytes entries) :
    ∃ msg, buildCounterexamples [] (assignmentOf entries) = .error (.valueError msg) := by
  unfold buildCounterexamples
  split
  · next hoffsets =>
    split
    · exact ⟨_, rfl⟩
    · unfold counterexamplesFromOffsets
      rw [if_neg hoffsets]
      match hpairs : (assignmentOf entries).offsetValues with
      | [] => exact absurd hpairs hoffsets
      | (offset, value) :: rest =>
        have hrange : offset < 0 ∨ ((totalSize [] : Nat) : Int) ≤ offset := by
          show offset < 0 ∨ (0 : Int) ≤ offset
          omega
        rw [storeAll, if_pos hrange]
        exact ⟨_, rfl⟩
  · have hlength : (assignmentOf entries).values.length ≠ totalSize [] := by
      show (entries.map _).length ≠ 0
      rw [List.length_map]
      exact fun hzero => h.1 (List.length_eq_zero_iff.mp hzero)
    unfold counterexamplesFromBytes
    rw [if_pos hlength]
    exact ⟨_, rfl⟩

theorem addressRow_probe_of_none {addr : Int} (h : log.divergent.get? addr = none) :
    addressRow readers probe log addr = .ok (log.row readers .branch addr) := by
  have hkind : instructionKind probe addr = .ok .branch := rfl
  rw [addressRow, hkind, h]

/-- A block of bytes ends the probe with a `ValueError`. -/
theorem abacusRows_probe_error (h : Recovered probe log rs) {addr : Int}
    {entries : List KeyEntry} (hmem : .divergent addr entries ∈ rs) (hbytes : AreBytes entries) :
    ∃ msg, abacusRows readers probe log = .error (.valueError msg) := by
  have hrow : ∀ addr a, log.divergent.get? addr = some a →
      ∃ msg, addressRow readers probe log addr = .error (.valueError msg) := by
    intro addr a ha
    obtain ⟨entries, -, hbytes, rfl⟩ := (h.divergent addr a).mp ha
    obtain ⟨msg, hmsg⟩ := buildCounterexamples_nil hbytes
    have hlayout : probe.layout = [] := rfl
    have hkind : instructionKind probe addr = .ok .branch := rfl
    refine ⟨msg, ?_⟩
    rw [addressRow, hkind, ha]
    dsimp only
    rw [hlayout, hmsg]
  have hget := (h.divergent addr _).mpr ⟨entries, hmem, hbytes, rfl⟩
  obtain ⟨msg, hmsg⟩ := hrow addr _ hget
  obtain ⟨e, ⟨msg', rfl⟩, hmap⟩ := Sequence.exists_error_of_mapM
    (P := fun e => ∃ msg, e = Exc.valueError msg) (fun addr' _ e he => by
      cases ha : log.divergent.get? addr' with
      | none =>
        rw [addressRow_probe_of_none ha] at he
        cases he
      | some a =>
        obtain ⟨msg, hmsg⟩ := hrow addr' a ha
        rw [hmsg] at he
        exact ⟨msg, (Except.error.inj he).symm⟩)
    (mem_addresses_iff.mpr (.inl ⟨_, hget⟩)) hmsg
  refine ⟨msg', ?_⟩
  rw [abacusRows, hmap]

/-- Without blocks the rows of the probe are made before they are checked. -/
theorem abacusRows_probe (h : ∀ addr, log.divergent.get? addr = none) :
    abacusRows readers probe log =
      ((sortedSet (log.divergent.keys ++ log.locations.keys)).map
        (log.row readers .branch)).mapM makeResultRow := by
  have hmap : (sortedSet (log.divergent.keys ++ log.locations.keys)).mapM
      (addressRow readers probe log) =
        .ok ((sortedSet (log.divergent.keys ++ log.locations.keys)).map
          (log.row readers .branch)) := by
    rw [Sequence.mapM_eq_ok_iff, List.forall₂_map_right_iff, List.forall₂_same]
    exact fun addr _ => addressRow_probe_of_none (h addr)
  rw [abacusRows, hmap]

theorem typeError_of_makeResultRow {row : Row F} {e : Exc} (h : makeResultRow row = .error e) :
    ∃ msg, e = .typeError msg := by
  unfold makeResultRow at h
  split at h
  · exact ⟨_, (Except.error.inj h).symm⟩
  · split at h
    · exact ⟨_, (Except.error.inj h).symm⟩
    · cases h

/-- A row without a time is no row. -/
theorem abacusRows_probe_of_untimed (h : ∀ addr, log.divergent.get? addr = none)
    (htime : log.nonCtTime readers = none) :
    (∃ addr l, log.locations.get? addr = some l) →
      ∃ msg, abacusRows readers probe log = .error (.typeError msg) := by
  rintro ⟨addr, l, hl⟩
  have hmem := List.mem_map_of_mem (f := log.row readers .branch)
    (mem_addresses_iff.mpr (.inr ⟨l, hl⟩))
  have hnone : ∀ row : Row F, row.nonCtTime = none → ∃ e, makeResultRow row = .error e := by
    intro row hrow
    unfold makeResultRow
    split
    · exact ⟨_, rfl⟩
    · rw [hrow]
      exact ⟨_, rfl⟩
  obtain ⟨e, he⟩ := hnone (log.row readers .branch addr) htime
  obtain ⟨e', ⟨msg, rfl⟩, hmap⟩ := Sequence.exists_error_of_mapM (f := makeResultRow)
    (P := fun e => ∃ msg, e = Exc.typeError msg)
    (fun row _ e he => typeError_of_makeResultRow he) hmem he
  exact ⟨msg, (abacusRows_probe h).trans hmap⟩

/-- A path below the root has a name. -/
theorem relativizeToCodeRoot_probe (path : Text) :
    relativizeToCodeRoot probe.cwd path probe.codeRoot ≠ [] := by
  have hroot : abspath "/".toList "/".toList = "/".toList := by decide
  have hcomponents : pathComponents "/".toList = [] := by decide
  have hcommon : ∀ other : Text, commonpath "/".toList other = "/".toList := fun other => by
    rw [commonpath, hcomponents]
    rfl
  show relativizeToCodeRoot "/".toList path (some "/".toList) ≠ []
  show (if commonpath (abspath "/".toList "/".toList) (abspath "/".toList path) =
    abspath "/".toList "/".toList then
      relpath (abspath "/".toList path) (abspath "/".toList "/".toList) else basename path) ≠ []
  rw [hroot, hcommon, if_pos rfl, relpath, hcomponents]
  show (if (pathComponents (abspath "/".toList path)) = [] then ".".toList
    else join "/".toList (pathComponents (abspath "/".toList path))) ≠ []
  split
  · exact List.cons_ne_nil _ _
  · next hne =>
    obtain ⟨comp, comps, hcomps⟩ := List.exists_cons_of_ne_nil hne
    have hcomp : comp ≠ [] := by
      have hmem : comp ∈ pathComponents (abspath "/".toList path) := hcomps ▸ List.mem_cons_self
      exact (of_decide_eq_true (List.mem_filter.mp hmem).2).1
    obtain ⟨c, cs, rfl⟩ := List.exists_cons_of_ne_nil hcomp
    rw [hcomps, join]
    cases comps with
    | nil => exact List.cons_ne_nil _ _
    | cons d ds => exact List.cons_ne_nil _ _

/-- With both times and no block all rows of the probe are made. -/
theorem exists_abacusRows_probe (h : Recovered probe log rs)
    (hblocks : ∀ addr, log.divergent.get? addr = none) {time : F}
    (htime : log.nonCtTime readers = some time) :
    ∃ rows, abacusRows readers probe log = .ok rows := by
  rw [abacusRows_probe hblocks]
  have hall : ∀ row ∈ (sortedSet (log.divergent.keys ++ log.locations.keys)).map
      (log.row readers .branch), ∃ out, makeResultRow row = .ok out := by
    intro row hrow
    obtain ⟨addr, haddr, rfl⟩ := List.mem_map.mp hrow
    obtain ⟨l, hl⟩ : ∃ l, log.locations.get? addr = some l := by
      rcases mem_addresses_iff.mp haddr with ⟨a, ha⟩ | hl
      · rw [hblocks] at ha
        cases ha
      · exact hl
    obtain ⟨source, -, rfl⟩ := (h.location addr l).mp hl
    have hfilename : (log.row readers .branch addr).filename =
        some (locate probe source).filename := by
      rw [AbacusLog.row, hl]
      rfl
    refine ⟨_, makeResultRow_ok_iff.mpr ⟨fun hnil => ?_, time, htime, rfl⟩⟩
    rw [hfilename] at hnil
    exact relativizeToCodeRoot_probe source.1 (Option.some.inj hnil)
  obtain ⟨rows, hrows⟩ := Sequence.exists_forall₂_iff.mpr hall
  exact ⟨rows, Sequence.mapM_eq_ok_iff.mpr hrows⟩

/-- What is lost in some order is not in reach. -/
theorem nothingToLose_of_lossless {content : Text}
    (h : LogOf readers rs (abacusLines content)) (hnodup : (rs.map LogRecord.slot).Nodup)
    (hlossless : Lossless readers rs content) (hr : r ∈ rs) (hlacks : r.lacksSource = true) :
    NothingToLose rs := by
  obtain ⟨log, hparse, hlog⟩ := hlossless.recovered probe
  obtain ⟨rs', content', hperm, h', hhidden⟩ := exists_hiding h hnodup hr hlacks
  obtain ⟨log', hparse', hlog'⟩ := exists_parse h' ((hperm.map LogRecord.slot).nodup hnodup) probe
  have hsame := hlossless.order rs' content' hperm h' probe
  rw [convertAbacusLog_of_parse hparse, convertAbacusLog_of_parse hparse'] at hsame
  -- the other order has neither blocks nor times
  have hblocks' : ∀ addr, log'.divergent.get? addr = none := fun addr => by
    rw [Option.eq_none_iff_forall_ne_some]
    intro a ha
    obtain ⟨entries, hmem, -⟩ := (hlog'.divergent addr a).mp ha
    exact absurd (hhidden _ hmem) (by simp [LogRecord.isAddress])
  have htime' : log'.nonCtTime readers = none := by
    have hse : log'.seTime = none := by
      rw [Option.eq_none_iff_forall_ne_some]
      intro t ht
      exact absurd (hhidden _ ((hlog'.seTime t).mp ht)) (by simp [LogRecord.isAddress])
    rw [AbacusLog.nonCtTime, hse]
  have hblocks : ∀ addr entries, .divergent addr entries ∈ rs → ¬AreBytes entries := by
    intro addr entries hmem hbytes
    have herror : ∃ msg, abacusRows readers probe log = .error (.valueError msg) :=
      abacusRows_probe_error hlog hmem hbytes
    obtain ⟨msg, hmsg⟩ := herror
    rw [hmsg, abacusRows_probe hblocks'] at hsame
    obtain ⟨row, hrow, hfails⟩ := Sequence.exists_of_mapM_error hsame
    obtain ⟨msg', hmsg'⟩ := typeError_of_makeResultRow hfails
    cases hmsg'
  refine ⟨hblocks, fun se qif addr source hse hqif haddr => ?_⟩
  obtain ⟨msg, hmsg⟩ := abacusRows_probe_of_untimed hblocks' htime'
    ⟨addr, _, (location_of_heard hlog' addr _).mpr ⟨source, hperm.mem_iff.mp haddr, rfl⟩⟩
  have hnone : ∀ addr, log.divergent.get? addr = none := fun addr => by
    rw [Option.eq_none_iff_forall_ne_some]
    intro a ha
    obtain ⟨entries, hmem, hbytes, -⟩ := (hlog.divergent addr a).mp ha
    exact hblocks addr entries hmem hbytes
  have htime : log.nonCtTime readers = some (readers.add se qif) := by
    rw [AbacusLog.nonCtTime, (hlog.seTime se).mpr hse, (hlog.qifTime qif).mpr hqif]
  obtain ⟨rows, hrows⟩ := exists_abacusRows_probe hlog hnone htime
  rw [hmsg, hrows] at hsame
  cases hsame

/-- **No record is lost and the order does not matter** exactly if no search can run over what
should be recovered: it does not in this order, and in any other there is no search or nothing
to lose. -/
theorem lossless_iff {content : Text} (h : LogOf readers rs (abacusLines content))
    (hnodup : (rs.map LogRecord.slot).Nodup) : Lossless readers rs content ↔ InReach rs := by
  refine ⟨fun hlossless => ⟨?_, ?_⟩, lossless_of_inReach h hnodup⟩
  · obtain ⟨log, hparse, hlog⟩ := exists_parse h hnodup probe
    obtain ⟨log', hparse', hlog'⟩ := hlossless.recovered probe
    obtain rfl := Except.ok.inj (hparse.symm.trans hparse')
    exact (recovered_heard_iff hnodup hlog).mp hlog'
  · by_cases hall : ∀ q ∈ rs, q.lacksSource = false
    · exact .inl hall
    · push Not at hall
      obtain ⟨q, hq, hlacks⟩ := hall
      have hquick := Bool.eq_true_of_not_eq_false hlacks
      exact .inr (nothingToLose_of_lossless h hnodup hlossless hq hquick)

end Order

/-! ### A lost block -/

/-- Exact times, as they are printed. -/
def exactReaders : AbacusReaders ℚ where
  limit := 100000
  isWord c := c.isAlphanum || c == '_'
  round := id
  add := (· + ·)

/-- A block with one byte. -/
def oneByte : LogRecord ℚ := .divergent 0x20 [{ value := 7, offset := some 0 }]

/-- The lines of the block. -/
def blockLines : List Text := ["[Divergent Input] 0x20:".toList, "Key0 = 7".toList]

theorem blockLines_printedAs : PrintedAs exactReaders oneByte blockLines :=
  @PrintedAs.divergent ℚ exactReaders _ 0x20
    [("Key0 = 7".toList, { value := 7, offset := some 0 })] rfl fun key hkey => by
      obtain rfl := List.mem_singleton.mp hkey
      rfl

/-- The lines of an address with its source line. -/
def locatedLines : List Text :=
  ["Address: 10".toList, "Source code: a: b.c line number: 3".toList]

theorem locatedLines_printedAs :
    PrintedAs exactReaders (.address 0x10 (some ("b.c".toList, 3))) locatedLines :=
  @PrintedAs.located ℚ exactReaders _ _ [] 0x10 ("b.c".toList, 3) rfl
    (fun _ hl => absurd hl List.not_mem_nil) rfl

/-- With its source line the address swallows nothing. -/
theorem lossless_located : Lossless exactReaders [.address 0x10 (some ("b.c".toList, 3)), oneByte]
    (unlines (locatedLines ++ blockLines)) := by
  have hclean : ∀ l ∈ locatedLines ++ (blockLines ++ []), '\n' ∉ l ∧ '\r' ∉ l := by decide
  have hlog := locatedLines_printedAs.followedBy (blockLines_printedAs.followedBy .nil)
  rw [← abacusLines_unlines hclean] at hlog
  have hall : ∀ q ∈ [.address 0x10 (some ("b.c".toList, 3)), oneByte],
      LogRecord.lacksSource q = false := by
    intro q hq
    rcases List.mem_cons.mp hq with rfl | hq
    · rfl
    · obtain rfl := List.mem_singleton.mp hq
      rfl
  refine (lossless_iff hlog (by decide)).mpr ⟨fun q hq => ?_, .inl hall⟩
  obtain ⟨p, hp, hlacks⟩ := hq.exists_lacksSource
  rw [hall p hp] at hlacks
  cases hlacks

/-- **Without its source line the address swallows the block.** -/
theorem block_lost :
    LogOf exactReaders [.address 0x10 none, oneByte]
        (abacusLines (unlines (["Address: 10".toList] ++ blockLines))) ∧
      ([.address 0x10 none, oneByte].map LogRecord.slot).Nodup ∧
      ¬Lossless exactReaders [.address 0x10 none, oneByte]
        (unlines (["Address: 10".toList] ++ blockLines)) := by
  have hclean : ∀ l ∈ ["Address: 10".toList] ++ (blockLines ++ []), '\n' ∉ l ∧ '\r' ∉ l := by
    decide
  have haddress : PrintedAs exactReaders (.address 0x10 none) ["Address: 10".toList] :=
    .address rfl
  have hlog := haddress.followedBy (blockLines_printedAs.followedBy .nil)
  rw [← abacusLines_unlines hclean] at hlog
  have hnodup : ([.address 0x10 none, oneByte].map LogRecord.slot).Nodup := by decide
  refine ⟨hlog, hnodup, fun hlossless => ?_⟩
  obtain ⟨log, hparse, hheard⟩ := exists_parse hlog hnodup probe
  obtain ⟨log', hparse', hall⟩ := hlossless.recovered probe
  obtain rfl := Except.ok.inj (hparse.symm.trans hparse')
  have hbytes : AreBytes [{ value := 7, offset := some 0 }] := by decide
  refine (recovered_heard_iff hnodup hheard).mp hall oneByte ?_ hbytes
  refine ⟨[], 0x10, [], [], rfl, fun q hq => ?_⟩
  obtain rfl := List.mem_singleton.mp hq
  rfl

end KleeDeps.Converters

import KleeDeps.Py.Regex
import KleeDeps.Replay.InputMode

/-!
# The exit-status protocol of a BINSEC replay

`build_rows` replays a finding in a child process and stores a status it
reconstructs from two things: the child's exit status, and a location found in
its output with `_REPRO_LINE_RE`. The exit statuses of the verdicts are
`0, 1, 3, 42, 124`, and `1` is also how CPython reports any exception.

- `reproLineRe`, `runReproduce`, `rowStatus`: the parent's side;
- `storedRow`: child and parent composed;
- `Faithful`: the row stores what the validation said, and nothing otherwise;
- `Recoverable`: the file names that come back through the regular expression;
- `faithful_iff`: **exactly when the protocol is faithful**.
-/

namespace KleeDeps.Converters

open Py Replay Regex

/-! ## The parent (`binsec_toml_to_json.py`) -/

/-- `(?P<file>.+?):(?P<line>[0-9]+):(?P<col>[0-9]+)\s*$`. -/
def placeRe : Regex :=
  .seq (.group "file".toList (.many (· ≠ '\n') 1 false)) <| .seq (.lit [':']) <|
  .seq (.group "line".toList (.many isDecDigit 1 true)) <| .seq (.lit [':']) <|
  .seq (.group "col".toList (.many isDecDigit 1 true)) <| .seq (.many isSpace 0 true) .atEnd

/-- `_REPRO_LINE_RE`: `0x[0-9a-fA-F]+:\s+` and the place. -/
def reproLineRe : Regex :=
  .seq (.lit "0x".toList) <| .seq (.many isHexDigit 1 true) <| .seq (.lit [':']) <|
  .seq (.many isSpace 1 true) placeRe

/-- `int(m.group(name))`. -/
def groupInt (limit : Nat) (m : Captures) (name : Text) : Except Exc Int :=
  match int10 limit ((get m name).getD []) with
  | .ok n => .ok n
  | .error e => .error e.exc

/-- The location of a match. -/
def locationOf (limit : Nat) (m : Captures) : Except Exc SourceLocation :=
  match groupInt limit m "line".toList with
  | .error e => .error e
  | .ok line =>
    match groupInt limit m "col".toList with
    | .error e => .error e
    | .ok column => .ok { file := (get m "file".toList).getD [], line := line, column := column }

/-- The loop over the output lines: the first line with a match decides. -/
def firstLocation (limit : Nat) : List Text → Except Exc (Option SourceLocation)
  | [] => .ok none
  | line :: rest =>
    match search reproLineRe (strip line) with
    | none => firstLocation limit rest
    | some m =>
      match locationOf limit m with
      | .ok location => .ok (some location)
      | .error e => .error e

/-- `_run_reproduce` after the child has ended; `limit` is the digit limit of the
converter. -/
def runReproduce (limit : Nat) (returncode : Int) (stdout stderr : Text) :
    Except Exc (Option SourceLocation) :=
  if returncode ≠ 0 then .ok none
  else firstLocation limit (splitlines (stdout ++ '\n' :: stderr))

/-- The status mapping of `build_rows`; an unknown code raises. -/
def rowStatus (location : Option SourceLocation) (rc : Int) : Except Exc Status :=
  match location with
  | none =>
    if rc = 124 then .ok .timeout
    else if rc = 1 then .ok .identicalTrace
    else if rc = 42 then .ok .kindMismatch
    else if rc = 0 ∨ rc = 3 then .ok .locationMismatch
    else .error (.runtimeError ("reproduce_positives.py failed with rc=".toList ++ intText rc))
  | some _ =>
    if rc = 42 then .ok .kindMismatch
    else if rc = 0 then .ok .success
    else .ok .locationMismatch

/-- What `build_rows` stores for a run of the child: status and location. -/
def storedRow (limit : Nat) (readLines : Text → Option (List Text)) (e : Expectation)
    (run : ChildRun) (stderr : Text) : Except Exc (Status × Option SourceLocation) :=
  let child := modeInputValues readLines e run
  match runReproduce limit child.1 child.2 stderr with
  | .error x => .error x
  | .ok location =>
    match rowStatus location child.1 with
    | .error x => .error x
    | .ok status => .ok (status, location)

/-! ## What the protocol should do -/

/-- The row stores the validation's status, and the location of the replay where
one is looked for; a run without a verdict stores nothing. -/
def Faithful (limit : Nat) (readLines : Text → Option (List Text)) (e : Expectation)
    (run : ChildRun) (stderr : Text) : Prop :=
  match run.validation readLines e with
  | .error _ => ∃ x, storedRow limit readLines e run stderr = .error x
  | .ok validation =>
    match validation.status with
    | none => ∃ x, storedRow limit readLines e run stderr = .error x
    | some status => ∃ location,
        storedRow limit readLines e run stderr = .ok (status, location) ∧
        (validation.returnCode = 0 → location = validation.replay.bind ReplayResult.location)

/-- The file names `_REPRO_LINE_RE` gives back: not empty, on one line, and not
starting with white space the pattern takes for its own. -/
def Recoverable (file : Text) : Prop :=
  file ≠ [] ∧ (∀ c ∈ file, isLineBreak c = false) ∧
    ((∃ c, file = [c]) ∨ ∀ c, file.head? = some c → isSpace c = false)

/-! ## The place at the end of a line -/

theorem isDecDigit_of_mem_decimal {n : Nat} {c : Char} (hc : c ∈ decimal n) :
    isDecDigit c = true := by
  obtain ⟨ds, hds, hlt, -, -⟩ := toDigits_eq_map (b := 10) (by decide) n
  rw [decimal, hds] at hc
  obtain ⟨d, hd, rfl⟩ := List.mem_map.mp hc
  have := hlt d hd
  interval_cases d <;> decide

theorem colon_notMem_decimal (n : Nat) : ':' ∉ decimal n := fun h =>
  absurd (isDecDigit_of_mem_decimal h) (by decide)

/-- The captures of a match with a given place. -/
def placeCaptures (file line column : Text) : Captures :=
  [("file".toList, file), ("line".toList, line), ("col".toList, column)]

/-- Every match of the place, spelled out. -/
theorem mem_matchAt_placeRe {s : Text} {m : Captures × Text} :
    m ∈ matchAt placeRe s ↔ ∃ file line column blank, s = file ++ ':' :: (line ++ ':' ::
        (column ++ (blank ++ m.2))) ∧ m.1 = placeCaptures file line column ∧
      (∀ c ∈ file, c ≠ '\n') ∧ file ≠ [] ∧ (∀ c ∈ line, isDecDigit c = true) ∧ line ≠ [] ∧
      (∀ c ∈ column, isDecDigit c = true) ∧ column ≠ [] ∧ (∀ c ∈ blank, isSpace c = true) ∧
      (m.2 = [] ∨ m.2 = ['\n']) := by
  simp only [placeRe, mem_matchAt_seq, mem_matchAt_group_many, mem_matchAt_lit, mem_matchAt_many,
    mem_matchAt_atEnd, decide_eq_true_eq, Nat.one_le_iff_ne_zero, ne_eq, List.length_eq_zero_iff]
  constructor
  · rintro ⟨m₁, ⟨file, rfl, hf, hfile, hfne⟩, m₂, ⟨m₃, ⟨hc, hs₃⟩, m₄, ⟨m₅, ⟨line, hs₅, hl, hline,
      hlne⟩, m₆, ⟨m₇, ⟨hc', hs₇⟩, m₈, ⟨m₉, ⟨column, hs₉, hcol, hcolumn, hcne⟩, m₁₀, ⟨m₁₁, ⟨hb, blank,
      hs₁₁, hblank, -⟩, m₁₂, ⟨rfl, hend⟩, rfl⟩, rfl⟩, rfl⟩, rfl⟩, rfl⟩, rfl⟩
    refine ⟨file, line, column, blank, ?_, ?_, hfile, hfne, hline, hlne, hcolumn, hcne, hblank,
      hend⟩
    · rw [hs₃, hs₅, hs₇, hs₉, hs₁₁]
      rfl
    · simp [hf, hc, hl, hc', hcol, hb, placeCaptures]
  · rintro ⟨file, line, column, blank, rfl, hm, hfile, hfne, hline, hlne, hcolumn, hcne, hblank,
      hend⟩
    refine ⟨([("file".toList, file)], _), ⟨file, rfl, rfl, hfile, hfne⟩, _, ⟨([], _), ⟨rfl, rfl⟩, _,
      ⟨([("line".toList, line)], _), ⟨line, rfl, rfl, hline, hlne⟩, _, ⟨([], _), ⟨rfl, rfl⟩, _,
      ⟨([("col".toList, column)], _), ⟨column, rfl, rfl, hcolumn, hcne⟩, _, ⟨([], m.2),
      ⟨rfl, blank, rfl, hblank, Nat.zero_le _⟩, _, ⟨rfl, hend⟩, rfl⟩, rfl⟩, rfl⟩, rfl⟩, rfl⟩, ?_⟩
    exact Prod.ext hm rfl

/-- A printed place has one reading: everything before the last two colons is the
file. Nothing blank can follow, since the text ends in a digit. -/
theorem mem_matchAt_place {file : Text} {line column : Nat} {m : Captures × Text}
    (h : m ∈ matchAt placeRe (file ++ ':' :: (decimal line ++ ':' :: decimal column))) :
    m.1 = placeCaptures file (decimal line) (decimal column) ∧ file ≠ [] := by
  obtain ⟨f, l, c, blank, hs, hm, -, hfne, hl, -, hc, hcne, hblank, hend⟩ :=
    mem_matchAt_placeRe.mp h
  have htail : blank ++ m.2 = [] := by
    rcases List.eq_nil_or_concat (blank ++ m.2) with hnil | ⟨t, x, ht⟩
    · exact hnil
    · -- the last character would be both a digit and white space
      have hx : isSpace x = true := by
        have hmem : x ∈ blank ++ m.2 := by simp [ht]
        rcases List.mem_append.mp hmem with hmem | hmem
        · exact hblank x hmem
        · rcases hend with he | he
          · simp [he] at hmem
          · rw [he] at hmem
            rw [List.mem_singleton.mp hmem]
            decide
      have hlast := congrArg List.getLast? hs
      rw [ht] at hlast
      have hdec : (decimal column).getLast? = some x := by
        have hget : ((decimal column).getLast?).getD ':' = x := by
          simpa [List.getLast?_append, List.getLast?_cons] using hlast
        rw [List.getLast?_eq_some_getLast (decimal_ne_nil column)] at hget ⊢
        exact congrArg some hget
      have hsp := (mem_toDigits_spec (by decide) (by decide) (List.mem_of_getLast? hdec)).1
      rw [hx] at hsp
      cases hsp
  have hcolon : ∀ {t : Text}, (∀ x ∈ t, isDecDigit x = true) → ':' ∉ t := fun ht hmem =>
    absurd (ht _ hmem) (by decide)
  rw [htail, List.append_nil] at hs
  have hassoc : ∀ a b c : Text, a ++ ':' :: (b ++ ':' :: c) = (a ++ ':' :: b) ++ ':' :: c := by
    simp
  rw [hassoc, hassoc] at hs
  obtain ⟨h₁, rfl⟩ := Sequence.split_last_unique (colon_notMem_decimal column) (hcolon hc) hs
  obtain ⟨rfl, rfl⟩ := Sequence.split_last_unique (colon_notMem_decimal line) (hcolon hl) h₁
  exact ⟨hm, hfne⟩

/-- And it has that reading, if the file is not empty and on one line. -/
theorem exists_mem_matchAt_place {file : Text} (hne : file ≠ []) (hline : '\n' ∉ file)
    (line column : Nat) :
    matchAt placeRe (file ++ ':' :: (decimal line ++ ':' :: decimal column)) ≠ [] := by
  refine List.ne_nil_of_mem (a := (placeCaptures file (decimal line) (decimal column), []))
    (mem_matchAt_placeRe.mpr ⟨file, decimal line, decimal column, [], by simp, rfl,
      fun c hc he => hline (he ▸ hc), hne, fun c hc => isDecDigit_of_mem_decimal hc,
      decimal_ne_nil line, fun c hc => isDecDigit_of_mem_decimal hc, decimal_ne_nil column,
      by simp, Or.inl rfl⟩)

/-! ## The whole line -/

theorem isHexDigit_of_mem_toDigits {n : Nat} {c : Char} (hc : c ∈ Nat.toDigits 16 n) :
    isHexDigit c = true := by
  obtain ⟨ds, hds, hlt, -, -⟩ := toDigits_eq_map (b := 16) (by decide) n
  rw [hds] at hc
  obtain ⟨d, hd, rfl⟩ := List.mem_map.mp hc
  have := hlt d hd
  interval_cases d <;> decide

/-- After the address only white space and the place are left to match. -/
theorem match?_reproLineRe (ip : Nat) (s : Text) :
    match? reproLineRe (hexText ip ++ ':' :: s) =
      match? (.seq (.many isSpace 1 true) placeRe) s := by
  have hhex : hexText ip ++ ':' :: s = "0x".toList ++ (Nat.toDigits 16 ip ++ ':' :: s) := by
    have hneg : ¬ (ip : Int) < 0 := by omega
    simp [hexText, hneg]
  have hlen : 1 ≤ (Nat.toDigits 16 ip).length :=
    List.length_pos_iff.mpr Nat.toDigits_ne_nil
  unfold match? reproLineRe
  rw [hhex, matchAt_lit_seq,
    matchAt_many_sep (fun c hc => isHexDigit_of_mem_toDigits hc) hlen (by decide)]

section Line

variable {file : Text} {line column : Nat}

/-- The text behind the address. -/
def placeText (file : Text) (line column : Nat) : Text :=
  ' ' :: (file ++ ':' :: (decimal line ++ ':' :: decimal column))

/-- However much white space the pattern takes, it leaves a place: the first
character is the space of the format, the others belong to the file. -/
theorem drop_placeText {k : Nat} (hk : 1 ≤ k)
    (hle : k ≤ ((placeText file line column).takeWhile isSpace).length) :
    (placeText file line column).drop k =
        file.drop (k - 1) ++ ':' :: (decimal line ++ ':' :: decimal column) ∧
      k - 1 ≤ file.length := by
  obtain ⟨n, rfl⟩ : ∃ n, k = n + 1 := ⟨k - 1, by omega⟩
  have hn : n ≤ file.length := by
    by_contra hlt
    have hsp : ((placeText file line column).takeWhile isSpace).length ≤ file.length + 1 := by
      rw [placeText, List.takeWhile_cons_of_pos (by decide), List.length_cons,
        List.takeWhile_append]
      split
      · rw [List.takeWhile_cons_of_neg (by decide), List.append_nil]
      · have := (List.takeWhile_prefix (l := file) isSpace).length_le
        omega
    omega
  refine ⟨?_, hn⟩
  rw [placeText, List.drop_succ_cons, List.drop_append_of_le_length hn]
  rfl

/-- Every match behind the address drops some leading white space of the file. -/
theorem exists_drop_of_match? {c : Captures}
    (h : match? (.seq (.many isSpace 1 true) placeRe) (placeText file line column) = some c) :
    ∃ k, c = placeCaptures (file.drop k) (decimal line) (decimal column) ∧ file.drop k ≠ [] := by
  obtain ⟨m, hm, rfl⟩ := exists_mem_of_match? h
  obtain ⟨m₁, h₁, m₂, h₂, rfl⟩ := mem_matchAt_seq.mp hm
  simp only [matchAt_many, List.mem_map, mem_counts] at h₁
  obtain ⟨n, ⟨hn, hmost⟩, rfl⟩ := h₁
  rw [(drop_placeText hn hmost).1] at h₂
  obtain ⟨hc, hne⟩ := mem_matchAt_place h₂
  exact ⟨n - 1, by simp [hc], hne⟩

/-- **A recoverable file name is recovered.** -/
theorem match?_of_recoverable (h : Recoverable file) :
    match? (.seq (.many isSpace 1 true) placeRe) (placeText file line column) =
      some (placeCaptures file (decimal line) (decimal column)) := by
  obtain ⟨hne, hbreak, hhead⟩ := h
  have hnl : '\n' ∉ file := fun hmem => absurd (hbreak _ hmem) (by decide)
  have hexists : ∃ m, m ∈ matchAt (.seq (.many isSpace 1 true) placeRe)
      (placeText file line column) := by
    obtain ⟨m, hm⟩ := List.exists_mem_of_ne_nil _ (exists_mem_matchAt_place hne hnl line column)
    exact ⟨([] ++ m.1, m.2), mem_matchAt_seq.mpr ⟨([], _), mem_matchAt_many.mpr
      ⟨rfl, [' '], rfl, by simp; decide, by simp⟩, m, hm, rfl⟩⟩
  refine match?_of_unique hexists fun m hm => ?_
  obtain ⟨m₁, h₁, m₂, h₂, rfl⟩ := mem_matchAt_seq.mp hm
  simp only [matchAt_many, List.mem_map, mem_counts] at h₁
  obtain ⟨n, ⟨hn, hmost⟩, rfl⟩ := h₁
  obtain ⟨hdrop, hle⟩ := drop_placeText hn hmost
  rw [hdrop] at h₂
  obtain ⟨hc, hrest⟩ := mem_matchAt_place h₂
  -- taking more than the one space would take the file's first character
  obtain rfl : n = 1 := by
    by_contra hn1
    rcases hhead with ⟨x, rfl⟩ | hhead
    · exact hrest (List.drop_of_length_le (by simp; omega))
    · cases file with
      | nil => exact hne rfl
      | cons x rest =>
        have hx := hhead x rfl
        rw [placeText, List.takeWhile_cons_of_pos (by decide), List.cons_append,
          List.takeWhile_cons_of_neg (by simp [hx])] at hmost
        simp only [List.length_cons, List.length_nil] at hmost
        omega
  simpa using hc

/-- A file name on one line that is not recoverable comes back shorter. -/
theorem match?_of_not_recoverable {x : Char} {rest : Text} (hfile : file = x :: rest)
    (hx : isSpace x = true) (hrest : rest ≠ []) (hnl : '\n' ∉ file) (line column : Nat) :
    ∃ c, match? (.seq (.many isSpace 1 true) placeRe) (placeText file line column) = some c ∧
      get c "file".toList ≠ some file := by
  subst hfile
  have hgo : matchAt placeRe ((placeText (x :: rest) line column).drop 2) ≠ [] :=
    exists_mem_matchAt_place hrest (fun h => hnl (by simp [h])) line column
  have htwo : 2 ≤ ((placeText (x :: rest) line column).takeWhile isSpace).length := by
    rw [placeText, List.takeWhile_cons_of_pos (by decide), List.cons_append,
      List.takeWhile_cons_of_pos hx]
    simp
  cases hm : match? (.seq (.many isSpace 1 true) placeRe) (placeText (x :: rest) line column) with
  | none =>
    exfalso
    obtain ⟨m, hmem⟩ := List.exists_mem_of_ne_nil _ hgo
    unfold match? at hm
    rw [Option.map_eq_none_iff, List.head?_eq_none_iff] at hm
    have hin : ([] ++ m.1, m.2) ∈ matchAt (.seq (.many isSpace 1 true) placeRe)
        (placeText (x :: rest) line column) := by
      refine mem_matchAt_seq.mpr ⟨([], (placeText (x :: rest) line column).drop 2), ?_, m, hmem, rfl⟩
      simp only [matchAt_many, List.mem_map, mem_counts]
      exact ⟨2, ⟨by decide, htwo⟩, rfl⟩
    rw [hm] at hin
    simp at hin
  | some c =>
    refine ⟨c, rfl, ?_⟩
    obtain ⟨k, hk, hmost, m, hmem, rfl⟩ := exists_of_match?_many_greedy ⟨by decide, htwo⟩ hgo hm
    rw [(drop_placeText (by omega) hmost).1] at hmem
    rw [(mem_matchAt_place hmem).1]
    intro he
    have hlen := congrArg List.length (Option.some.inj he)
    rw [List.length_drop, List.length_cons] at hlen
    omega

end Line

/-- Any match at all captures a non-empty file and two numbers. -/
theorem captures_of_search {s : Text} {c : Captures} (h : search reproLineRe s = some c) :
    ∃ file line column, c = placeCaptures file line column ∧ file ≠ [] ∧ ∀ x ∈ file, x ∈ s := by
  obtain ⟨t, ht, m, hm, rfl⟩ := exists_mem_of_search h
  have hsub : ∀ name w, (name, w) ∈ m.1 → ∀ x ∈ w, x ∈ s := fun _ _ hw x hx =>
    ht.subset (mem_of_mem_capture hm hw hx)
  simp only [reproLineRe, mem_matchAt_seq, mem_matchAt_lit, mem_matchAt_many] at hm
  obtain ⟨m₁, ⟨h₁, -⟩, m₂, ⟨m₃, ⟨h₃, -⟩, m₄, ⟨m₅, ⟨h₅, -⟩, m₆, ⟨m₇, ⟨h₇, -⟩, m₈, h₈, rfl⟩, rfl⟩,
    rfl⟩, rfl⟩ := hm
  obtain ⟨file, line, column, -, -, hcap, -, hne, -⟩ := mem_matchAt_placeRe.mp h₈
  have hc : m₁.1 ++ (m₃.1 ++ (m₅.1 ++ (m₇.1 ++ m₈.1))) = placeCaptures file line column := by
    simp [h₁, h₃, h₅, h₇, hcap]
  refine ⟨file, line, column, hc, hne, hsub "file".toList file ?_⟩
  rw [hc]
  simp [placeCaptures]

/-- A search over text that cannot start an address goes on behind it. -/
theorem search_skip {u s : Text} (h : '0' ∉ u) :
    search reproLineRe (u ++ s) = search reproLineRe s := by
  refine search_append fun v hv hne => match?_eq_none fun m hm => ?_
  cases v with
  | nil => exact hne rfl
  | cons c v =>
    obtain ⟨m₁, h₁, -⟩ := mem_matchAt_seq.mp hm
    have heq := (mem_matchAt_lit.mp h₁).2
    have hc : c = '0' := (List.cons.inj heq).1
    exact h (hv.subset (by simp [hc]))

/-- The numbers of a printed place are read back. -/
theorem locationOf_placeCaptures {limit : Nat} (hlimit : limit = 0 ∨ 640 ≤ limit) (file : Text)
    {line column : Nat} (hl : (decimal line).length ≤ 640) (hc : (decimal column).length ≤ 640) :
    locationOf limit (placeCaptures file (decimal line) (decimal column)) =
      .ok { file := file, line := line, column := column } := by
  have hread : ∀ {n : Nat}, (decimal n).length ≤ 640 → int10 limit (decimal n) = .ok (n : Int) := by
    intro n hn
    rw [int10_decimal, if_neg]
    rintro ⟨h0, hlt⟩
    rcases hlimit with h | h
    · exact h0 h
    · omega
  have hline : groupInt limit (placeCaptures file (decimal line) (decimal column)) "line".toList =
      .ok (line : Int) := by
    show (match int10 limit (decimal line) with | .ok n => _ | .error e => _) = _
    rw [hread hl]
  have hcol : groupInt limit (placeCaptures file (decimal line) (decimal column)) "col".toList =
      .ok (column : Int) := by
    show (match int10 limit (decimal column) with | .ok n => _ | .error e => _) = _
    rw [hread hc]
  simp only [locationOf, hline, hcol]
  rfl

/-! ## The line of a located divergence -/

theorem intText_natCast (n : Nat) : intText (n : Int) = decimal n := by
  have hneg : ¬ (n : Int) < 0 := by omega
  simp [intText, hneg]

/-- The line the child prints first about a located divergence. -/
def locationLine (kind : DivergenceKind) (ip : Nat) (file : Text) (line column : Nat) : Text :=
  (kind.token ++ " divergence at ".toList) ++ (hexText ip ++ ':' :: placeText file line column)

theorem printReplayLocation_eq {replay : ReplayResult} {location : SourceLocation}
    {ip line column : Nat} (hloc : replay.location = some location)
    (hip : replay.resolvedIp = some (ip : Int)) (hline : location.line = line)
    (hcol : location.column = column) :
    printReplayLocation replay =
      locationLine replay.divergenceKind ip location.file line column := by
  simp only [printReplayLocation, hloc, hip, hline, hcol, intText_natCast, Option.some_or]
  simp [locationLine, placeText]

section LocationLine

variable {kind : DivergenceKind} {ip line column : Nat} {file : Text}

/-- A file name on one line makes a line of its own. -/
theorem isLineBreak_locationLine (h : ∀ c ∈ file, isLineBreak c = false) :
    ∀ c ∈ locationLine kind ip file line column, isLineBreak c = false := by
  have hdec : ∀ n, ∀ c ∈ decimal n, isLineBreak c = false := fun n c hc =>
    isLineBreak_of_isSpace (mem_toDigits_spec (by decide) (by decide) hc).1
  have hhead : ∀ c ∈ kind.token ++ " divergence at ".toList, isLineBreak c = false := by
    have hall : (kind.token ++ " divergence at ".toList).all (!isLineBreak ·) = true := by
      cases kind <;> decide
    intro c hc
    exact Bool.not_eq_true' _ ▸ List.all_eq_true.mp hall c hc
  have hhex : ∀ c ∈ hexText ip, isLineBreak c = false := by
    intro c hc
    have hneg : ¬ (ip : Int) < 0 := by omega
    simp only [hexText, hneg, if_false, List.nil_append, List.mem_cons] at hc
    rcases hc with rfl | rfl | hc
    · decide
    · decide
    · exact isLineBreak_of_isSpace (mem_toDigits_spec (by decide) (by decide) hc).1
  intro c hc
  simp only [locationLine, placeText, List.mem_append (s := kind.token ++ _), List.mem_append
    (s := hexText ip), List.mem_cons, List.mem_append (s := file), List.mem_append
    (s := decimal line)] at hc
  rcases hc with hc | hc | rfl | rfl | hc | rfl | hc | rfl | hc
  · exact hhead c hc
  · exact hhex c hc
  · decide
  · decide
  · exact h c hc
  · decide
  · exact hdec line c hc
  · decide
  · exact hdec column c hc

theorem strip_locationLine : strip (locationLine kind ip file line column) =
    locationLine kind ip file line column := by
  have hlast := List.getLast?_eq_some_getLast (decimal_ne_nil column)
  have hd : (locationLine kind ip file line column).getLast? =
      some ((decimal column).getLast (decimal_ne_nil column)) := by
    simp [locationLine, placeText, List.getLast?_append, List.getLast?_cons, hlast]
  have hds := (mem_toDigits_spec (b := 10) (by decide) (by decide)
    (List.getLast_mem (decimal_ne_nil column))).1
  cases kind with
  | branch => exact strip_of_ends (c := 'b') rfl hd (by decide) hds
  | memory => exact strip_of_ends (c := 'm') rfl hd (by decide) hds

/-- The search in that line is the match behind its address, if there is one. -/
theorem search_locationLine {c : Captures}
    (h : match? (.seq (.many isSpace 1 true) placeRe) (placeText file line column) = some c) :
    search reproLineRe (strip (locationLine kind ip file line column)) = some c := by
  have hzero : '0' ∉ kind.token ++ " divergence at ".toList := by
    cases kind <;> decide
  rw [strip_locationLine, locationLine, search_skip hzero]
  exact search_of_match? ((match?_reproLineRe ip _).trans h)

end LocationLine

/-- The file of a parsed location is the captured one. -/
theorem file_of_locationOf {limit : Nat} {m : Captures} {location : SourceLocation}
    (h : locationOf limit m = .ok location) : location.file = (get m "file".toList).getD [] := by
  unfold locationOf at h
  split at h
  · cases h
  · split at h
    · cases h
    · rw [← Except.ok.inj h]

/-- What any parsed location is like: its file is not empty and on one line. -/
theorem file_of_firstLocation {limit : Nat} {lines : List Text}
    (hlines : ∀ l ∈ lines, ∀ c ∈ l, isLineBreak c = false) {location : SourceLocation}
    (h : firstLocation limit lines = .ok (some location)) :
    location.file ≠ [] ∧ ∀ c ∈ location.file, isLineBreak c = false := by
  induction lines with
  | nil => simp [firstLocation] at h
  | cons l lines ih =>
    rw [firstLocation] at h
    cases hs : search reproLineRe (strip l) with
    | none =>
      rw [hs] at h
      exact ih (fun m hm => hlines m (by simp [hm])) h
    | some m =>
      rw [hs] at h
      obtain ⟨file, line, column, rfl, hne, hsub⟩ := captures_of_search hs
      have hfile : location.file = file := by
        cases hloc : locationOf limit (placeCaptures file line column) with
        | error e =>
          simp only [hloc] at h
          cases h
        | ok found =>
          simp only [hloc] at h
          obtain rfl := Option.some.inj (Except.ok.inj h)
          exact file_of_locationOf hloc
      rw [hfile]
      refine ⟨hne, fun c hc => hlines l (by simp) c ?_⟩
      have hstrip : strip l <:+: l :=
        (List.rdropWhile_prefix _ _).isInfix.trans (List.dropWhile_suffix _).isInfix
      exact hstrip.subset (hsub c hc)

/-- **The regular expression gives the location back exactly for recoverable file
names**, whatever else the child prints. -/
theorem firstLocation_iff {limit : Nat} (hlimit : limit = 0 ∨ 640 ≤ limit)
    (kind : DivergenceKind) (ip : Nat) {location : SourceLocation} {line column : Nat}
    (hline : location.line = line) (hcol : location.column = column)
    (hl : (decimal line).length ≤ 640) (hc : (decimal column).length ≤ 640) (more : Text) :
    firstLocation limit
        (splitlines (locationLine kind ip location.file line column ++ '\n' :: more)) =
        .ok (some location) ↔ Recoverable location.file := by
  constructor
  · intro h
    obtain ⟨hne, hbreak⟩ := file_of_firstLocation
      (fun l hmem c hc => isLineBreak_of_mem_splitlines hmem hc) h
    refine ⟨hne, hbreak, ?_⟩
    by_contra hhead
    rw [not_or] at hhead
    obtain ⟨hsingle, hspace⟩ := hhead
    -- a longer name that starts with white space comes back without it
    cases hfile : location.file with
    | nil => exact hne hfile
    | cons x rest =>
      have hx : isSpace x = true := by
        by_contra hx
        refine hspace fun c hcx => ?_
        rw [hfile] at hcx
        obtain rfl := Option.some.inj hcx
        simpa using hx
      have hrest : rest ≠ [] := fun he => hsingle ⟨x, by rw [hfile, he]⟩
      obtain ⟨c, hmatch, hget⟩ := match?_of_not_recoverable hfile hx hrest
        (fun hnl => absurd (hbreak _ hnl) (by decide)) line column
      rw [splitlines_line (isLineBreak_locationLine hbreak), firstLocation,
        search_locationLine hmatch] at h
      obtain ⟨k, hk, hkne⟩ := exists_drop_of_match? hmatch
      rw [hk] at h
      simp only [locationOf_placeCaptures hlimit _ hl hc] at h
      have hfiles := congrArg SourceLocation.file (Option.some.inj (Except.ok.inj h))
      rw [hk] at hget
      exact hget (congrArg some hfiles)
  · intro h
    rw [splitlines_line (isLineBreak_locationLine h.2.1), firstLocation,
      search_locationLine (match?_of_recoverable h)]
    simp only [locationOf_placeCaptures hlimit location.file hl hc, ← hline, ← hcol]

/-! ## Faithfulness -/

/-- The runs the protocol transmits: a parsed specification or not, no exception
that CPython reports with status `1`, and a recoverable file name on success. -/
def Transmittable (readLines : Text → Option (List Text)) (e : Expectation) : ChildRun → Prop
  | .badInputs _ => True
  | .escaped x => exitStatus x ≠ 1
  | .replayed outcome => ∀ replay location, outcome = .diverged replay →
      replay.location = some location →
      (validateOutcome readLines e outcome).status = some .success → Recoverable location.file

/-- A success with an expected place is a located divergence, and its line is the
first the child prints. -/
theorem success_spec {readLines : Text → Option (List Text)} {e : Expectation}
    (he : e.hasLocation = true) {outcome : ReplayOutcome}
    (h : (validateOutcome readLines e outcome).status = some .success) :
    ∃ replay location, outcome = .diverged replay ∧ replay.location = some location ∧
      (validateOutcome readLines e outcome).replay = some replay ∧
      ∃ notes, modeInputValuesLines e (validateOutcome readLines e outcome) =
        printReplayLocation replay :: notes := by
  cases outcome with
  | timeout => simp [validateOutcome] at h
  | failed err => simp [validateOutcome] at h
  | identical => simp [validateOutcome] at h
  | diverged replay =>
    simp only [validateOutcome] at h ⊢
    split at h
    · simp at h
    · next hk =>
      rw [if_neg hk]
      cases hloc : replay.location with
      | none =>
        simp only [hloc] at h
        cases h
      | some location =>
        simp only [hloc] at h ⊢
        split at h
        · next hm =>
          rw [if_pos hm]
          exact ⟨replay, location, rfl, hloc, rfl, _, rfl⟩
        · cases h

/-- What the parent makes of a verdict other than success: the same verdict. -/
theorem storedRow_of_returnCode {limit : Nat} {readLines : Text → Option (List Text)}
    {e : Expectation} {run : ChildRun} {validation : InputValidationResult}
    (hv : run.validation readLines e = .ok validation) {status : Status}
    (hstatus : status ≠ .success) (hnot : status ≠ .notReproduced)
    (hcode : validation.returnCode = returnCodeOf (some status)) (stderr : Text) :
    storedRow limit readLines e run stderr = .ok (status, none) := by
  cases status with
  | success => exact absurd rfl hstatus
  | notReproduced => exact absurd rfl hnot
  | _ => simp [storedRow, modeInputValues, hv, runReproduce, rowStatus, hcode, returnCodeOf]

/-- And of exit status `2`: the conversion fails. -/
theorem storedRow_two {limit : Nat} {readLines : Text → Option (List Text)} {e : Expectation}
    {run : ChildRun} (h : (modeInputValues readLines e run).1 = 2) (stderr : Text) :
    ∃ x, storedRow limit readLines e run stderr = .error x := by
  refine ⟨.runtimeError ("reproduce_positives.py failed with rc=".toList ++ intText 2), ?_⟩
  simp [storedRow, h, runReproduce, rowStatus]

/-- An exception is faithfully no verdict unless CPython gives it the status of
identical traces. -/
theorem faithful_escaped_iff {limit : Nat} (readLines : Text → Option (List Text))
    (e : Expectation) (x : Exc) (stderr : Text) :
    Faithful limit readLines e (.escaped x) stderr ↔ exitStatus x ≠ 1 := by
  show (∃ y, storedRow limit readLines e (.escaped x) stderr = .error y) ↔ _
  have hchild : (modeInputValues readLines e (.escaped x)).1 = exitStatus x := rfl
  constructor
  · rintro ⟨y, hy⟩ h1
    rw [h1] at hchild
    simp [storedRow, hchild, runReproduce, rowStatus] at hy
  · intro h1
    refine storedRow_two ?_ stderr
    rw [hchild]
    cases x <;> first | rfl | exact absurd rfl h1

/-- A success is stored as one with its location exactly if the file name comes
back. -/
theorem faithful_success_iff {limit : Nat} (hlimit : limit = 0 ∨ 640 ≤ limit)
    {readLines : Text → Option (List Text)} {e : Expectation} {replay : ReplayResult}
    {location : SourceLocation} (hloc : replay.location = some location)
    (hres : replay.Resolved) (hreplay :
      (validateOutcome readLines e (.diverged replay)).replay = some replay)
    (hstatus : (validateOutcome readLines e (.diverged replay)).status = some .success)
    {notes : List Text} (hnotes : modeInputValuesLines e
      (validateOutcome readLines e (.diverged replay)) = printReplayLocation replay :: notes)
    (stderr : Text) :
    Faithful limit readLines e (.replayed (.diverged replay)) stderr ↔
      Recoverable location.file := by
  obtain ⟨⟨ip, hip⟩, line, column, hline, hcol, hl, hc⟩ := hres location hloc
  have hcode : (validateOutcome readLines e (.diverged replay)).returnCode = 0 := by
    rw [(validateOutcome_returnCode readLines e _).1, hstatus]
    rfl
  have hrun : runReproduce limit 0 (unlines (printReplayLocation replay :: notes)) stderr =
      firstLocation limit (splitlines (locationLine replay.divergenceKind ip location.file line
        column ++ '\n' :: (unlines notes ++ '\n' :: stderr))) := by
    rw [printReplayLocation_eq hloc hip hline hcol]
    simp [runReproduce, unlines]
  -- the location line is the first of the output, so the search for a location begins at it
  have hiff := firstLocation_iff hlimit replay.divergenceKind ip hline hcol hl hc
    (unlines notes ++ '\n' :: stderr)
  have hstored : storedRow limit readLines e (.replayed (.diverged replay)) stderr =
      match runReproduce limit 0 (unlines (printReplayLocation replay :: notes)) stderr with
      | .error x => .error x
      | .ok location =>
        match rowStatus location 0 with
        | .error x => .error x
        | .ok status => .ok (status, location) := by
    simp only [storedRow, modeInputValues, ChildRun.validation, hcode, hnotes]
  have hfaithful : Faithful limit readLines e (.replayed (.diverged replay)) stderr ↔
      ∃ found, storedRow limit readLines e (.replayed (.diverged replay)) stderr =
        .ok (.success, found) ∧ found = some location := by
    unfold Faithful
    simp only [ChildRun.validation, hstatus, hcode, hreplay, Option.bind_some, hloc,
      forall_const]
  rw [hfaithful, ← hiff, hstored, hrun]
  constructor
  · rintro ⟨found, hfound, rfl⟩
    split at hfound
    · cases hfound
    · next found' h =>
      split at hfound
      · cases hfound
      · rw [h, (Prod.mk.inj (Except.ok.inj hfound)).2]
  · intro h
    rw [h]
    exact ⟨some location, rfl, rfl⟩

/-- **Exactly when the protocol is faithful**: for every expectation with a place,
every run of the child and whatever it writes to standard error. -/
theorem faithful_iff {limit : Nat} (hlimit : limit = 0 ∨ 640 ≤ limit)
    (readLines : Text → Option (List Text)) (e : Expectation) (he : e.hasLocation = true)
    (run : ChildRun) (hres : run.Resolved) (stderr : Text) :
    Faithful limit readLines e run stderr ↔ Transmittable readLines e run := by
  cases run with
  | badInputs err => exact iff_of_true (storedRow_two rfl stderr) trivial
  | escaped x => exact faithful_escaped_iff readLines e x stderr
  | replayed outcome =>
    obtain ⟨hcode, hnot⟩ := validateOutcome_returnCode readLines e outcome
    cases hstatus : (validateOutcome readLines e outcome).status with
    | none =>
      refine iff_of_true ?_ fun _ _ _ _ h => by rw [hstatus] at h; cases h
      rw [hstatus] at hcode
      unfold Faithful
      simp only [ChildRun.validation, hstatus]
      exact storedRow_two (show (modeInputValues readLines e (.replayed outcome)).1 = 2 from hcode)
        stderr
    | some status =>
      by_cases hsuccess : status = .success
      · subst hsuccess
        obtain ⟨replay, location, rfl, hloc, hreplay, notes, hnotes⟩ := success_spec he hstatus
        rw [faithful_success_iff hlimit hloc hres hreplay hstatus hnotes stderr]
        constructor
        · intro h _ _ hr hl _
          obtain rfl := ReplayOutcome.diverged.inj hr
          rw [hloc] at hl
          exact Option.some.inj hl ▸ h
        · exact fun h => h replay location rfl hloc hstatus
      · -- any other verdict travels in the exit status alone
        rw [hstatus] at hcode hnot
        refine iff_of_true ?_ fun _ _ _ _ h =>
          absurd (Option.some.inj (hstatus.symm.trans h)) hsuccess
        unfold Faithful
        simp only [ChildRun.validation, hstatus]
        have hne : status ≠ .notReproduced := fun h => hnot (congrArg some h)
        refine ⟨none, storedRow_of_returnCode rfl hsuccess hne hcode stderr, fun h0 => ?_⟩
        rw [hcode] at h0
        cases status <;> first | exact absurd rfl hsuccess | cases h0

/-- A recoverable success: the location printed by the child is stored. -/
theorem faithful_iff_success :
    Faithful 4300 (fun _ => none)
      { filename := some "aes.c".toList, line := some 12, column := some 7,
        kind := some .branch }
      (.replayed (.diverged
        { culpritIp := some 16, resolvedIp := some 16,
          location := some { file := "aes.c".toList, line := 12, column := 7 },
          divergenceKind := .branch, columnBounds := none })) [] := by
  refine (faithful_iff (by decide) _ _ rfl _ ?_ []).mpr ?_
  · intro location hloc
    obtain rfl := Option.some.inj hloc
    exact ⟨⟨16, rfl⟩, 12, 7, rfl, rfl, by decide, by decide⟩
  · intro replay location hr hloc _
    obtain rfl := ReplayOutcome.diverged.inj hr
    obtain rfl := Option.some.inj hloc
    exact ⟨by decide, by simp [isLineBreak], Or.inr (by simp; decide)⟩

/-- Two traces that differ, the first cut short in the middle of an address: the
comparison raises, and the row says the traces are identical. -/
theorem exception_stored_as_identical :
    ∃ x, compareTraceFiles 4300 "I 0x10\nR 0x10 0x".toList "I 0x10\nR 0x10 0x20\n".toList =
        .error x ∧
      storedRow 4300 (fun _ => none)
        { filename := some "aes.c".toList, line := some 12, column := some 7,
          kind := some .memory }
        (runOfTraces 4300 none "I 0x10\nR 0x10 0x".toList "I 0x10\nR 0x10 0x20\n".toList) [] =
        .ok (.identicalTrace, none) ∧
      ¬ Faithful 4300 (fun _ => none)
        { filename := some "aes.c".toList, line := some 12, column := some 7,
          kind := some .memory }
        (runOfTraces 4300 none "I 0x10\nR 0x10 0x".toList "I 0x10\nR 0x10 0x20\n".toList)
        [] := by
  have hcmp : ∃ msg, compareTraceFiles 4300 "I 0x10\nR 0x10 0x".toList
      "I 0x10\nR 0x10 0x20\n".toList = .error (.valueError msg) := by
    rw [compareTraceFiles, compareLoop_eq_compareLines]
    exact ⟨_, by rfl⟩
  obtain ⟨msg, hmsg⟩ := hcmp
  have hrun : runOfTraces 4300 none "I 0x10\nR 0x10 0x".toList
      "I 0x10\nR 0x10 0x20\n".toList = .escaped (.valueError msg) := by
    rw [runOfTraces, hmsg]
  refine ⟨_, hmsg, ?_, ?_⟩
  · rw [hrun]
    rfl
  · rw [hrun, faithful_escaped_iff]
    exact fun h => h rfl

end KleeDeps.Converters

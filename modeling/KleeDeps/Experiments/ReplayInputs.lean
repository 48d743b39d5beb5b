import KleeDeps.Data.Sequence
import KleeDeps.Experiments.Cases
import KleeDeps.Runner.Inputs

/-!
# The inputs a replay gets and the inputs it was compiled to load

The names on a replay command line come from a benchmark descriptor, the buffers of
the replay executable from a runner config. Both are written by hand; this module
says when they agree, for a runner config whose names are the ones the target lists.

- `ReplayMatches`: the secrets, then the publics unless the build fixes them, so
  that every file reaches the buffer of its own name;
- `KleeAgrees`, `BinsecAgrees`: the conditions on the descriptor;
- `kleeCase_matches_iff`, `binsecCase_matches_iff`: case by case they are exact;
- `replay_names_match`: **every case of an agreeing descriptor is replayed with the inputs
  its executable loads**.
-/

namespace KleeDeps.Experiments

open Py Runner

/-! ## The contract -/

/-- The replay build of a public mode fixes the public inputs. -/
def concretePubs (artifactConfig : Text) : Bool := artifactConfig = "fix_pub".toList

/-- The command line of a replay carries the secrets in order, then the publics in
order unless the build fixes them; the executable accepts it and every file reaches
the buffer of its own name. -/
def ReplayMatches (config : RunnerInputs) (artifactConfig : Text) (secrets publics : List Text) :
    Prop :=
  secrets = config.names .secret ∧
  publics = (if concretePubs artifactConfig then [] else config.names .isPublic) ∧
  ∃ loaded, config.loadReplayInputs (concretePubs artifactConfig) (secrets ++ publics) =
      some loaded ∧ ∀ p ∈ loaded, p.1.name = p.2

/-- The last part follows from the others. -/
theorem replayMatches_iff {config : RunnerInputs} {artifactConfig : Text}
    {secrets publics : List Text} :
    ReplayMatches config artifactConfig secrets publics ↔
      secrets = config.names .secret ∧
      publics = if concretePubs artifactConfig then [] else config.names .isPublic := by
  constructor
  · exact fun h => ⟨h.1, h.2.1⟩
  · rintro ⟨rfl, rfl⟩
    refine ⟨rfl, rfl, ?_⟩
    exact (config.loadReplayInputs_eq_some_iff (concretePubs artifactConfig) _).mpr rfl

/-- A runner config that names the inputs the target lists, kind by kind and in
order. -/
structure Listed (config : RunnerInputs) (case : ExpandedCase) : Prop where
  secrets : ∃ layouts, optionalStringList case.targetTable "secret_inputs".toList
      case.targetLocation = .ok layouts ∧ layouts.map layoutName = config.names .secret
  publics : ∃ layouts, optionalStringList case.targetTable "public_inputs".toList
      case.targetLocation = .ok layouts ∧ layouts.map layoutName = config.names .isPublic

/-! ## Names that survive joining and splitting -/

/-- The names of a list after joining with commas and splitting again. -/
def rejoined (names : List Text) : List Text := parseList (join [','] names)

/-- A stripped name of an accepted config: an identifier, without the final newline
the pattern would allow. -/
structure PlainName (name : Text) : Prop where
  nonempty : name ≠ []
  chars : ∀ c ∈ name, isIdentifierChar c = true

theorem isSpace_of_isIdentifierChar {c : Char} (h : isIdentifierChar c = true) :
    isSpace c = false := by
  simp only [isIdentifierChar, isIdentifierStart, Bool.or_eq_true, Bool.and_eq_true,
    decide_eq_true_eq, beq_iff_eq] at h
  simp only [isSpace, Bool.or_eq_false_iff, Bool.and_eq_false_iff, decide_eq_false_iff_not,
    beq_eq_false_iff_ne]
  omega

theorem getLast?_strip {s : Text} {c : Char} (h : (strip s).getLast? = some c) :
    isSpace c = false := by
  unfold strip rstrip at h
  have hne : List.rdropWhile isSpace (lstrip s) ≠ [] := by
    intro hnil
    rw [hnil] at h
    cases h
  have hlast := List.rdropWhile_last_not isSpace (lstrip s) hne
  rw [List.getLast?_eq_some_getLast hne] at h
  rw [← Option.some.inj h]
  simpa using hlast

theorem plainName_of_matchesIdentifier {s : Text} (h : matchesIdentifier (strip s) = true) :
    PlainName (strip s) := by
  have hlast : ∀ c, (strip s).getLast? = some c → isSpace c = false := fun c => getLast?_strip
  generalize strip s = name at h hlast
  cases name with
  | nil => cases h
  | cons c rest =>
    simp only [matchesIdentifier, Bool.and_eq_true, Bool.or_eq_true, decide_eq_true_eq] at h
    obtain ⟨hstart, hrest⟩ := h
    have hc : isIdentifierChar c = true := by simp [isIdentifierChar, hstart]
    refine ⟨List.cons_ne_nil _ _, ?_⟩
    rcases hrest with hall | ⟨hnl, -⟩
    · intro x hx
      rcases List.mem_cons.mp hx with rfl | hx
      · exact hc
      · exact List.all_eq_true.mp hall x hx
    · -- a stripped name does not end in a newline
      exfalso
      have hend : (c :: rest).getLast? = some '\n' := by
        cases rest with
        | nil => cases hnl
        | cons d rest => simpa using hnl
      exact absurd (hlast _ hend) (by decide)

theorem PlainName.strip {name : Text} (h : PlainName name) : Py.strip name = name :=
  strip_of_forall fun c hc => isSpace_of_isIdentifierChar (h.chars c hc)

theorem PlainName.notMem {name : Text} (h : PlainName name) {c : Char}
    (hc : isIdentifierChar c = false) : c ∉ name := fun hmem => by
  rw [h.chars c hmem] at hc
  cases hc

/-- Plain names come back as they were. -/
theorem rejoined_of_plain {names : List Text} (h : ∀ n ∈ names, PlainName n) :
    rejoined names = names := by
  unfold rejoined parseList join
  cases hnames : names with
  | nil => rfl
  | cons n rest =>
    rw [← hnames]
    have hsplit : ([','].intercalate names).splitOn ',' = names := by
      refine List.splitOn_intercalate ',' (fun l hl => (h l hl).notMem (by decide)) ?_
      rw [hnames]
      exact List.cons_ne_nil _ _
    have hfilter : names.filter (Py.strip · ≠ []) = names := by
      rw [List.filter_eq_self]
      intro l hl
      rw [(h l hl).strip]
      simpa using (h l hl).nonempty
    have hmap : names.map Py.strip = names := by
      rw [List.map_congr_left fun l hl => (h l hl).strip, List.map_id']
    rw [hsplit, hfilter, hmap]

/-- Layouts of distinct names keep all of them. -/
theorem inputNamesFromLayout_eq {specs : List Text}
    (hnodup : (specs.map layoutName).Nodup) (hne : ∀ spec ∈ specs, layoutName spec ≠ []) :
    inputNamesFromLayout specs = specs.map layoutName := by
  have hfold : ∀ (specs acc : List Text), (acc ++ specs.map layoutName).Nodup →
      (∀ spec ∈ specs, layoutName spec ≠ []) →
      specs.foldl (fun names spec =>
        if layoutName spec ≠ [] ∧ layoutName spec ∉ names then names ++ [layoutName spec]
        else names) acc = acc ++ specs.map layoutName := by
    intro specs
    induction specs with
    | nil => simp
    | cons spec specs ih =>
      intro acc hnodup hne
      have hnew : layoutName spec ∉ acc := by
        rw [List.map_cons, List.nodup_append] at hnodup
        exact fun hmem => hnodup.2.2 _ hmem _ (by simp) rfl
      rw [List.foldl_cons, if_pos ⟨hne spec (by simp), hnew⟩, ih _ (by simpa using hnodup)
        fun s hs => hne s (by simp [hs])]
      simp
  simpa [inputNamesFromLayout] using hfold specs [] (by simpa using hnodup) hne

section Names

variable {config : RunnerInputs} {kind : InputKind} {layouts : List Text}

/-- The names of a listed kind are plain. -/
theorem plainName_of_listed (h : layouts.map layoutName = config.names kind) :
    ∀ n ∈ config.names kind, PlainName n := by
  intro n hn
  obtain ⟨input, hinput, rfl⟩ := List.mem_map.mp hn
  have hident := config.identifiers input (List.mem_of_mem_filter hinput)
  rw [← h] at hn
  obtain ⟨spec, -, hspec⟩ := List.mem_map.mp hn
  rw [← hspec] at hident ⊢
  exact plainName_of_matchesIdentifier hident

theorem nodup_names : (config.names kind).Nodup :=
  config.distinctNames.sublist (List.filter_sublist.map _)

/-- The target's layouts, read as names of the KLEE family, are the listed names. -/
theorem inputNamesFromLayout_listed (h : layouts.map layoutName = config.names kind) :
    inputNamesFromLayout layouts = config.names kind := by
  rw [← h]
  refine inputNamesFromLayout_eq (h ▸ nodup_names) fun spec hspec => ?_
  exact (plainName_of_listed h _ (h ▸ List.mem_map_of_mem hspec)).nonempty

end Names

/-! ## The KLEE family -/

/-- What the chain of places settles on, read as names: the first override that is
given, else what the target lists, else the defaults. -/
def Settles (case : ExpandedCase) (kleeKey key : Text) (listed defaults expected : List Text) :
    Prop :=
  match firstGiven (kleeOverrides case kleeKey key) with
  | .error _ => False
  | .ok [] => if listed = [] then rejoined defaults = expected else listed = expected
  | .ok (first :: rest) => rejoined (first :: rest) = expected

/-- The condition on a descriptor for the KLEE family. -/
def KleeAgrees (config : RunnerInputs) (case : ExpandedCase)
    (defaultSecrets defaultPublics : List Text) : Prop :=
  let publics := Settles case "klee_public_inputs".toList "public_inputs".toList
    (config.names .isPublic) defaultPublics
  Settles case "klee_secret_inputs".toList "secret_inputs".toList
    (config.names .secret) defaultSecrets (config.names .secret) ∧
  if concretePubs case.artifactConfig then kleeUsePublicInputs case = .ok false ∨ publics []
  else publics (config.names .isPublic)

theorem firstGiven_append (xs ys : List (Except Exc (List Text))) :
    firstGiven (xs ++ ys) = match firstGiven xs with
      | .error e => .error e
      | .ok [] => firstGiven ys
      | .ok (first :: rest) => .ok (first :: rest) := by
  induction xs with
  | nil => rfl
  | cons x xs ih =>
    rcases x with e | names
    · rfl
    · cases names with
      | nil => exact ih
      | cons first rest => rfl

/-- **The chain** of a kind of inputs settles as `Settles` says. -/
theorem rejoined_kleeInputs_iff {config : RunnerInputs} {kind : InputKind} {case : ExpandedCase}
    {kleeKey key : Text} {layouts : List Text}
    (hread : optionalStringList case.targetTable key case.targetLocation = .ok layouts)
    (hnames : layouts.map layoutName = config.names kind) {defaults names : List Text}
    (h : kleeInputs case kleeKey key defaults = .ok names) (expected : List Text) :
    rejoined names = expected ↔
      Settles case kleeKey key (config.names kind) defaults expected := by
  rw [kleeInputs, firstGiven_append, hread] at h
  unfold Settles
  cases hover : firstGiven (kleeOverrides case kleeKey key) with
  | error e => simp [hover] at h
  | ok given =>
    -- an override is taken as it is; without one the layout decides, and last the defaults
    cases given with
    | cons first rest =>
      simp only [hover, Except.ok.injEq] at h
      show _ ↔ rejoined (first :: rest) = expected
      rw [h]
    | nil =>
      simp only [hover, Except.map, inputNamesFromLayout_listed hnames] at h
      show _ ↔ if config.names kind = [] then _ else _
      cases hlisted : config.names kind with
      | nil =>
        rw [hlisted] at h
        have hdefaults : names = defaults := by
          cases defaults <;> exact (Except.ok.inj h).symm
        rw [if_pos rfl, hdefaults]
      | cons n rest =>
        rw [hlisted] at h
        obtain rfl := Except.ok.inj h
        rw [if_neg (List.cons_ne_nil _ _),
          rejoined_of_plain (hlisted ▸ plainName_of_listed hnames)]

/-- What an accepted case of the KLEE family carries. -/
theorem kleeCase_spec {defaultSecrets defaultPublics : List Text} {case : ExpandedCase}
    {k : KleeCase} (h : kleeCase defaultSecrets defaultPublics case = .ok k) :
    k.artifactConfig = case.artifactConfig ∧
      kleeInputs case "klee_secret_inputs".toList "secret_inputs".toList defaultSecrets =
        .ok k.secretInputs ∧
      ∃ publics use,
        kleeInputs case "klee_public_inputs".toList "public_inputs".toList defaultPublics =
          .ok publics ∧
        kleeUsePublicInputs case = .ok use ∧
        k.publicInputs =
          if use ∨ case.artifactConfig ≠ "fix_pub".toList then publics else [] := by
  unfold kleeCase at h
  simp only [bind, Except.bind] at h
  split at h
  · cases h
  · next secrets hs =>
    split at h
    · cases h
    · next publics hp =>
      split at h
      · cases h
      · next use hu =>
        obtain rfl := Except.ok.inj h
        exact ⟨rfl, hs, publics, use, hp, hu, rfl⟩

/-- **The KLEE family**: the replay matches iff the descriptor agrees. -/
theorem kleeCase_matches_iff {config : RunnerInputs} {case : ExpandedCase}
    (hlisted : Listed config case) {defaultSecrets defaultPublics : List Text} {k : KleeCase}
    (hk : kleeCase defaultSecrets defaultPublics case = .ok k) :
    ReplayMatches config k.artifactConfig (rejoined k.secretInputs) (rejoined k.publicInputs) ↔
      KleeAgrees config case defaultSecrets defaultPublics := by
  obtain ⟨hart, hs, publics, use, hp, hu, hpub⟩ := kleeCase_spec hk
  obtain ⟨⟨ls, hls, hnames⟩, lp, hlp, hpnames⟩ := hlisted
  rw [replayMatches_iff, KleeAgrees, hart, rejoined_kleeInputs_iff hls hnames hs, hpub, hu]
  refine and_congr_right fun _ => ?_
  by_cases hfix : case.artifactConfig = "fix_pub".toList
  · have hc : concretePubs case.artifactConfig = true := decide_eq_true hfix
    rw [if_pos hc, if_pos hc]
    cases use with
    | false =>
      rw [if_neg (not_or.mpr ⟨Bool.false_ne_true, not_not_intro hfix⟩)]
      exact ⟨fun _ => Or.inl rfl, fun _ => rfl⟩
    | true =>
      rw [if_pos (Or.inl rfl), rejoined_kleeInputs_iff hlp hpnames hp]
      exact ⟨Or.inr, fun h => h.resolve_left (by simp)⟩
  · have hc : ¬ concretePubs case.artifactConfig = true := fun h => hfix (of_decide_eq_true h)
    rw [if_neg hc, if_neg hc, if_pos (Or.inr hfix), rejoined_kleeInputs_iff hlp hpnames hp]

/-! ## BINSEC -/

/-- `str.format` copies what stands before the first replacement field. -/
def CopiesLiterals (format : Text → Except Exc Text) : Prop :=
  ∀ pre rest out, ':' ∉ pre → '{' ∉ pre → '}' ∉ pre → format (pre ++ ':' :: rest) = .ok out →
    ∃ rest', out = pre ++ ':' :: rest'

/-- The layouts of the configuration itself, if it has any, name these inputs whenever
they resolve. -/
def ConfigNames (format : Text → Except Exc Text) (location : Text) (case : ExpandedCase)
    (key : Text) (names : List Text) : Prop :=
  ∀ first rest out, optionalStringList case.configTable key case.configLocation =
    .ok (first :: rest) → resolveInputSpecs format location key (first :: rest) = .ok out →
    out.map layoutName = names

/-- The condition on a descriptor for BINSEC. -/
def BinsecAgrees (floatTruth : Text → Bool) (format : Text → Except Exc Text) (location : Text)
    (config : RunnerInputs) (case : ExpandedCase) : Prop :=
  ConfigNames format location case "secret_inputs".toList (config.names .secret) ∧
  if truthy floatTruth (Value.field case.configTable "use_public_inputs".toList) then
    if concretePubs case.artifactConfig then
      optionalStringList case.configTable "public_inputs".toList case.configLocation = .ok [] ∧
        config.names .isPublic = []
    else ConfigNames format location case "public_inputs".toList (config.names .isPublic)
  else concretePubs case.artifactConfig = true ∨ config.names .isPublic = []

theorem mem_of_mem_strip {s : Text} {c : Char} (h : c ∈ s) : c ∈ strip s ∨ isSpace c = true := by
  have hdrop : c ∈ lstrip s ∨ isSpace c = true := by
    rw [← List.takeWhile_append_dropWhile (p := isSpace) (l := s)] at h
    rcases List.mem_append.mp h with h | h
    · exact Or.inr (List.mem_takeWhile_imp h)
    · exact Or.inl h
  rcases hdrop with h | h
  · rw [← List.rdropWhile_append_rtakeWhile (p := isSpace) (l := lstrip s)] at h
    rcases List.mem_append.mp h with h | h
    · exact Or.inl h
    · exact Or.inr (List.mem_rtakeWhile_imp h)
  · exact Or.inr h

/-- A resolved layout names what the raw one names, if that is a plain name. -/
theorem layoutName_format {format : Text → Except Exc Text} (hformat : CopiesLiterals format)
    {spec out : Text} (hcolon : ':' ∈ spec) (hplain : PlainName (layoutName spec))
    (h : format spec = .ok out) : layoutName out = layoutName spec := by
  have hsplit : spec = spec.takeWhile (· ≠ ':') ++ ':' :: (spec.dropWhile (· ≠ ':')).tail := by
    have hne : spec.dropWhile (· ≠ ':') ≠ [] := by
      rw [ne_eq, List.dropWhile_eq_nil_iff]
      exact fun hall => absurd (hall _ hcolon) (by simp)
    obtain ⟨c, rest, hrest⟩ := List.exists_cons_of_ne_nil hne
    have hc : c = ':' := by
      have := List.head?_dropWhile_not (fun c => decide (c ≠ ':')) spec
      rw [hrest] at this
      simpa using this
    conv_lhs => rw [← List.takeWhile_append_dropWhile (p := fun c => decide (c ≠ ':')) (l := spec),
      hrest, hc]
    rw [hrest]
    rfl
  -- a plain name has no braces: `format` copies it, and changes only what follows the colon
  have hnot : ∀ c, isIdentifierChar c = false → isSpace c = false →
      c ∉ spec.takeWhile (· ≠ ':') := by
    intro c hid hsp hmem
    rcases mem_of_mem_strip hmem with hmem | hspace
    · exact hplain.notMem hid hmem
    · rw [hsp] at hspace
      cases hspace
  have hpre : ':' ∉ spec.takeWhile (· ≠ ':') := fun hmem => by
    simpa using List.mem_takeWhile_imp hmem
  rw [hsplit] at h
  obtain ⟨rest', rfl⟩ := hformat _ _ _ hpre (hnot '{' (by decide) (by decide))
    (hnot '}' (by decide) (by decide)) h
  have hall : ∀ c ∈ spec.takeWhile (· ≠ ':'), decide (c ≠ ':') = true :=
    fun c hc => List.mem_takeWhile_imp (p := fun c => decide (c ≠ ':')) hc
  unfold layoutName
  rw [List.takeWhile_append_of_pos hall, List.takeWhile_cons_of_neg (by simp), List.append_nil]

/-- Layouts of plain names resolve to layouts of the same names. -/
theorem resolveInputSpecs_names {format : Text → Except Exc Text}
    (hformat : CopiesLiterals format) {location key : Text} {specs out : List Text}
    (hplain : ∀ spec ∈ specs, PlainName (layoutName spec))
    (h : resolveInputSpecs format location key specs = .ok out) :
    out.map layoutName = specs.map layoutName := by
  unfold resolveInputSpecs at h
  split at h
  · cases h
  · next hcount =>
    push Not at hcount
    have hcolon : ∀ spec ∈ specs, ':' ∈ spec := fun spec hspec =>
      List.count_pos_iff.mp (by rw [hcount spec hspec]; decide)
    split at h
    · next hbrace =>
      have hall := Sequence.mapM_eq_ok_iff.mp h
      clear h hcount hbrace
      induction hall with
      | nil => rfl
      | cons hspec _ ih =>
        rw [List.map_cons, List.map_cons,
          layoutName_format hformat (hcolon _ (by simp)) (hplain _ (by simp)) hspec,
          ih (fun s hs => hplain s (by simp [hs])) fun s hs => hcolon s (by simp [hs])]
    · obtain rfl := Except.ok.inj h
      rfl

/-- Where the layouts of a case come from. -/
theorem binsecInputs_spec {case : ExpandedCase} {key : Text} {layouts specs : List Text}
    (hread : optionalStringList case.targetTable key case.targetLocation = .ok layouts)
    (h : binsecInputs case key = .ok specs) :
    ∃ own, optionalStringList case.configTable key case.configLocation = .ok own ∧
      specs = if own = [] then layouts else own := by
  unfold binsecInputs firstGiven at h
  rcases hown : optionalStringList case.configTable key case.configLocation with e | own
  · rw [hown] at h
    cases h
  · refine ⟨own, rfl, ?_⟩
    rw [hown] at h
    cases own with
    | nil =>
      rw [hread] at h
      rw [if_pos rfl]
      cases layouts <;> exact (Except.ok.inj h).symm
    | cons first rest =>
      rw [if_neg (List.cons_ne_nil _ _)]
      exact (Except.ok.inj h).symm

section Resolved

variable {config : RunnerInputs} {kind : InputKind} {format : Text → Except Exc Text}
  {case : ExpandedCase} {key location : Text} {layouts specs out : List Text}

theorem configNames_of_nil {names : List Text}
    (h : optionalStringList case.configTable key case.configLocation = .ok []) :
    ConfigNames format location case key names := by
  intro first rest out hcons
  rw [h] at hcons
  cases Except.ok.inj hcons

/-- Layouts that are read from a case resolve to the listed names iff the configuration's
own layouts, if any, do. -/
theorem resolved_binsecInputs_iff (hformat : CopiesLiterals format)
    (hread : optionalStringList case.targetTable key case.targetLocation = .ok layouts)
    (hnames : layouts.map layoutName = config.names kind)
    (h : binsecInputs case key = .ok specs)
    (hout : resolveInputSpecs format location key specs = .ok out) :
    out.map layoutName = config.names kind ↔
      ConfigNames format location case key (config.names kind) := by
  obtain ⟨own, hown, rfl⟩ := binsecInputs_spec hread h
  cases own with
  | nil =>
    have hsame : out.map layoutName = config.names kind := by
      rw [if_pos rfl] at hout
      rw [← hnames]
      refine resolveInputSpecs_names hformat (fun spec hspec => ?_) hout
      exact plainName_of_listed hnames _ (hnames ▸ List.mem_map_of_mem hspec)
    exact ⟨fun _ => configNames_of_nil hown, fun _ => hsame⟩
  | cons first rest =>
    rw [if_neg (List.cons_ne_nil _ _)] at hout
    constructor
    · intro hsame first' rest' out' hcons hout'
      rw [← Except.ok.inj (hown.symm.trans hcons), hout] at hout'
      exact Except.ok.inj hout' ▸ hsame
    · exact fun hall => hall first rest out hown hout

theorem length_resolveInputSpecs (h : resolveInputSpecs format location key specs = .ok out) :
    out.length = specs.length := by
  unfold resolveInputSpecs at h
  split at h
  · cases h
  · split at h
    · exact (Sequence.mapM_eq_ok_iff.mp h).length_eq.symm
    · rw [Except.ok.inj h]

/-- Nothing is resolved iff neither the configuration nor the target has a layout. -/
theorem resolved_binsecInputs_nil_iff
    (hread : optionalStringList case.targetTable key case.targetLocation = .ok layouts)
    (hnames : layouts.map layoutName = config.names kind)
    (h : binsecInputs case key = .ok specs)
    (hout : resolveInputSpecs format location key specs = .ok out) :
    out.map layoutName = [] ↔
      optionalStringList case.configTable key case.configLocation = .ok [] ∧
        config.names kind = [] := by
  obtain ⟨own, hown, rfl⟩ := binsecInputs_spec hread h
  rw [hown, ← hnames, List.map_eq_nil_iff, List.map_eq_nil_iff, ← List.length_eq_zero_iff,
    length_resolveInputSpecs hout, List.length_eq_zero_iff, Except.ok.injEq]
  by_cases hnil : own = []
  · rw [if_pos hnil]
    exact ⟨fun hl => ⟨hnil, hl⟩, fun hboth => hboth.2⟩
  · rw [if_neg hnil]
    exact ⟨fun hl => absurd hl hnil, fun hboth => hboth.1⟩

end Resolved

/-- What an accepted BINSEC case carries. -/
theorem binsecCase_spec {floatTruth : Text → Bool} {case : ExpandedCase} {b : BinsecCase}
    (h : binsecCase floatTruth case = .ok b) :
    b.artifactConfig = case.artifactConfig ∧
      binsecInputs case "secret_inputs".toList = .ok b.secretInputs ∧
      ∃ publics, binsecInputs case "public_inputs".toList = .ok publics ∧
        b.publicInputs =
          if truthy floatTruth (Value.field case.configTable "use_public_inputs".toList)
          then publics else [] := by
  unfold binsecCase at h
  simp only [bind, Except.bind] at h
  split at h
  · cases h
  · split at h
    · cases h
    · next secrets hs =>
      split at h
      · cases h
      · next publics hp =>
        obtain rfl := Except.ok.inj h
        exact ⟨rfl, hs, publics, hp, rfl⟩

/-- **BINSEC**: the replay matches iff the descriptor agrees. -/
theorem binsecCase_matches_iff {config : RunnerInputs} {case : ExpandedCase}
    (hlisted : Listed config case) {floatTruth : Text → Bool} {format : Text → Except Exc Text}
    (hformat : CopiesLiterals format) {b : BinsecCase}
    (hb : binsecCase floatTruth case = .ok b) {location : Text} {secrets publics : List Text}
    (hs : resolveInputSpecs format location "secret_inputs".toList b.secretInputs = .ok secrets)
    (hp : resolveInputSpecs format location "public_inputs".toList b.publicInputs =
      .ok publics) :
    ReplayMatches config b.artifactConfig (secrets.map layoutName) (publics.map layoutName) ↔
      BinsecAgrees floatTruth format location config case := by
  obtain ⟨hart, hreads, specs, hreadp, hpub⟩ := binsecCase_spec hb
  obtain ⟨⟨ls, hls, hnames⟩, lp, hlp, hpnames⟩ := hlisted
  rw [replayMatches_iff, BinsecAgrees, hart,
    resolved_binsecInputs_iff hformat hls hnames hreads hs]
  refine and_congr_right fun _ => ?_
  rw [hpub] at hp
  by_cases huse : truthy floatTruth
      (Value.field case.configTable "use_public_inputs".toList) = true
  · rw [if_pos huse] at hp ⊢
    split
    · exact resolved_binsecInputs_nil_iff hlp hpnames hreadp hp
    · exact resolved_binsecInputs_iff hformat hlp hpnames hreadp hp
  · rw [if_neg huse] at hp ⊢
    have hnil : publics = [] := List.length_eq_zero_iff.mp (length_resolveInputSpecs hp)
    rw [hnil]
    show [] = _ ↔ _
    split
    · next hc => exact ⟨fun _ => Or.inl hc, fun _ => rfl⟩
    · next hc => exact ⟨fun h => Or.inr h.symm, fun h => (h.resolve_left hc).symm⟩

/-! ## Whole descriptors -/

/-- The cases of a loader stand in the order of the expanded ones. -/
theorem kleeCase_of_loadKleeCases {floatTruth : Text → Bool} {definition : Definition}
    {toolId : Text} {cases : List ExpandedCase} {ks : List KleeCase}
    (hcases : expandBenchmarkCases floatTruth definition toolId = .ok cases)
    (hload : loadKleeCases floatTruth definition toolId = .ok ks) :
    ∃ defaults, kleeDefaults floatTruth definition = .ok defaults ∧
      ∀ p ∈ cases.zip ks, kleeCase defaults.1 defaults.2 p.1 = .ok p.2 := by
  unfold loadKleeCases at hload
  rw [hcases] at hload
  simp only [bind, Except.bind] at hload
  split at hload
  · cases hload
  · next defaults hdefaults =>
    refine ⟨defaults, hdefaults, fun p hp => ?_⟩
    exact List.forall₂_zip (Sequence.mapM_eq_ok_iff.mp hload) hp

/-- **The inputs of a replay.** Take a descriptor and a runner config whose names are the
ones the target lists. In every case of a KLEE-family tool and every case of BINSEC in
which the descriptor agrees with the target, the replay gets the inputs its executable
was compiled to load. -/
theorem replay_names_match (floatTruth : Text → Bool) (format : Text → Except Exc Text)
    (hformat : CopiesLiterals format) (definition : Definition) (config : RunnerInputs) :
    (∀ toolId cases ks defaults case k,
      expandBenchmarkCases floatTruth definition toolId = .ok cases →
      loadKleeCases floatTruth definition toolId = .ok ks →
      kleeDefaults floatTruth definition = .ok defaults →
      (case, k) ∈ cases.zip ks → Listed config case →
      KleeAgrees config case defaults.1 defaults.2 →
      ReplayMatches config k.artifactConfig (rejoined k.secretInputs)
        (rejoined k.publicInputs)) ∧
    (∀ cases bs case b location secrets publics,
      expandBenchmarkCases floatTruth definition "binsec".toList = .ok cases →
      loadBinsecCases floatTruth definition = .ok bs →
      (case, b) ∈ cases.zip bs → Listed config case →
      resolveInputSpecs format location "secret_inputs".toList b.secretInputs = .ok secrets →
      resolveInputSpecs format location "public_inputs".toList b.publicInputs = .ok publics →
      BinsecAgrees floatTruth format location config case →
      ReplayMatches config b.artifactConfig (secrets.map layoutName)
        (publics.map layoutName)) := by
  constructor
  · intro toolId cases ks defaults case k hcases hload hdefaults hmem hlisted hagrees
    obtain ⟨defaults', hdefaults', hall⟩ := kleeCase_of_loadKleeCases hcases hload
    obtain rfl := Except.ok.inj (hdefaults.symm.trans hdefaults')
    exact (kleeCase_matches_iff hlisted (hall _ hmem)).mpr hagrees
  · intro cases bs case b location secrets publics hcases hload hmem hlisted hs hp hagrees
    unfold loadBinsecCases at hload
    rw [hcases] at hload
    have hb := List.forall₂_zip (Sequence.mapM_eq_ok_iff.mp hload) hmem
    exact (binsecCase_matches_iff hlisted hformat hb hs hp).mpr hagrees

/-! ## The AES benchmark of BearSSL -/

/-- The inputs of its runner config. -/
def aesBigInputs : RunnerInputs where
  inputs :=
    [{ id := "skey_buf".toList, name := "skey".toList, kind := .secret
       size := .expression "SKEY_LEN".toList, constraints := [] },
     { id := "data_buf".toList, name := "data".toList, kind := .isPublic
       size := .expression "DATA_LEN".toList, constraints := [] },
     { id := "iv_buf".toList, name := "iv".toList, kind := .isPublic
       size := .expression "IV_LEN".toList, constraints := [] }]
  nonempty := by decide
  distinctIds := by decide
  distinctNames := by decide
  identifiers := by decide

/-- An array of strings. -/
def strings (ss : List String) : Value := .list (ss.map fun s => .str s.toList)

/-- Its descriptor with the configuration `var_pub` and some overrides there. -/
def aesBig (overrides : Table) : Definition where
  libraryId := "bearssl".toList
  targetId := "aes_big".toList
  configLocation := "benchmarks[0]".toList
  tools := ["klee_cf", "klee_eager", "klee_self_comp", "binsec", "abacus"].map String.toList
  extraConfig :=
    [("configs".toList, .list [.dict
        (("config".toList, .str "var_pub".toList) ::
         ("public_mode".toList, .str "var_pub".toList) :: overrides)]),
     ("runner_profile".toList, .str "aes_big".toList),
     ("secret_inputs".toList, strings ["skey:240:skey_buf"]),
     ("public_inputs".toList, strings ["data:32:data_buf", "iv:16:iv_buf"]),
     ("klee_secret_inputs".toList, strings ["skey"]),
     ("klee_public_inputs".toList, strings ["data", "iv"])]

/-- Its only case. -/
def aesBigCase (overrides : Table) : ExpandedCase where
  configId := "var_pub".toList
  artifactConfig := "var_pub".toList
  targetTable := (aesBig overrides).extraConfig
  targetLocation := "benchmarks[0].targets.aes_big".toList
  configTable := ("config".toList, .str "var_pub".toList) ::
    ("public_mode".toList, .str "var_pub".toList) :: overrides
  configLocation := "benchmarks[0].configs[0]".toList

theorem listed_aesBigCase (overrides : Table) : Listed aesBigInputs (aesBigCase overrides) where
  secrets := ⟨["skey:240:skey_buf".toList], rfl, by decide⟩
  publics := ⟨["data:32:data_buf".toList, "iv:16:iv_buf".toList], rfl, by decide⟩

theorem copiesLiterals_ok : CopiesLiterals .ok := by
  intro pre rest out _ _ _ h
  exact ⟨rest, (Except.ok.inj h).symm⟩

/-- The KLEE family replays the case with all its inputs, and so does BINSEC if it is told
to use the public ones. -/
theorem replay_names_match_aesBig :
    ReplayMatches aesBigInputs "var_pub".toList (rejoined ["skey".toList])
      (rejoined ["data".toList, "iv".toList]) ∧
    ReplayMatches aesBigInputs "var_pub".toList (["skey:240:skey_buf".toList].map layoutName)
      (["data:32:data_buf".toList, "iv:16:iv_buf".toList].map layoutName) := by
  constructor
  · refine (replay_names_match (fun _ => true) .ok copiesLiterals_ok (aesBig []) aesBigInputs).1
      "klee_cf".toList [aesBigCase []]
      [{ artifactConfig := "var_pub".toList
         replayOpts := "--secret skey --public data,iv".toList
         secretInputs := ["skey".toList]
         publicInputs := ["data".toList, "iv".toList] }] ([], []) (aesBigCase []) _
      rfl rfl rfl List.mem_cons_self (listed_aesBigCase _) ?_
    show rejoined ["skey".toList] = aesBigInputs.names .secret ∧
      rejoined ["data".toList, "iv".toList] = aesBigInputs.names .isPublic
    decide
  · let flag : Table := [("use_public_inputs".toList, .bool true)]
    refine (replay_names_match (fun _ => true) .ok copiesLiterals_ok (aesBig flag)
      aesBigInputs).2 [aesBigCase flag]
      [{ artifactConfig := "var_pub".toList
         runnerProfile := some "aes_big".toList
         secretInputs := ["skey:240:skey_buf".toList]
         publicInputs := ["data:32:data_buf".toList, "iv:16:iv_buf".toList] }]
      (aesBigCase flag) _ "benchmarks[0].binsec_cases[0]".toList _ _
      rfl rfl List.mem_cons_self (listed_aesBigCase _) (by decide) (by decide) ?_
    -- the configuration has no layouts of its own
    exact ⟨configNames_of_nil rfl, configNames_of_nil rfl⟩

/-- A configuration that overrides the names of the KLEE family: its replays get a file the
executable has no buffer for. -/
theorem override_replayed :
    ∃ cases ks case k,
      expandBenchmarkCases (fun _ => true)
        (aesBig [("klee_secret_inputs".toList, strings ["key"])]) "klee_cf".toList = .ok cases ∧
      loadKleeCases (fun _ => true)
        (aesBig [("klee_secret_inputs".toList, strings ["key"])]) "klee_cf".toList = .ok ks ∧
      (case, k) ∈ cases.zip ks ∧ Listed aesBigInputs case ∧
      ¬ ReplayMatches aesBigInputs k.artifactConfig (rejoined k.secretInputs)
        (rejoined k.publicInputs) := by
  refine ⟨[aesBigCase [("klee_secret_inputs".toList, strings ["key"])]],
    [{ artifactConfig := "var_pub".toList
       replayOpts := "--secret key --public data,iv".toList
       secretInputs := ["key".toList]
       publicInputs := ["data".toList, "iv".toList] }],
    _, _, rfl, rfl, List.mem_cons_self, listed_aesBigCase _, ?_⟩
  rw [replayMatches_iff]
  decide

end KleeDeps.Experiments

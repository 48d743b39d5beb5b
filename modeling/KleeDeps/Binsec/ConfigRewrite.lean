import KleeDeps.Py.Dict
import KleeDeps.Py.Regex

/-!
# Fitting the BINSEC configuration to the built executable

`_rewrite_binsec_config` of `tools/build_benchmark.py`: replacement blocks and halt lines are
kept for symbols the executable resolves, under the name of their PLT entry if there is one,
and every import in `.plt` or `.plt.sec` without a directive gets a stub that fails loudly.

- `Rewritten`: what becomes of the lines of a configuration, directive by directive;
- `rewriteDirectives_spec`: the loop computes it, or meets a block without end;
- `rewrite_binsec_config_spec`: errors, directives, stubs and their place in the output.
-/

namespace KleeDeps.Binsec

open Py

/-! ### Directives -/

/-- What of an executable decides about directives: the symbols of `_replacement_symbols` and
the sections of the imports from `_plt_elf_symbol_sections`. -/
structure Surface where
  symbols : List Text
  pltSections : Dict Text Text

/-- `_plt_elf_symbols`. -/
def Surface.pltSymbols (surface : Surface) : List Text := surface.pltSections.keys

/-- `^keyword<([^>]+)>`. -/
def symbolRegex (keyword : Text) : Regex :=
  .seq (.lit (keyword ++ ['<']))
    (.seq (.group "1".toList (.many (fun c => c != '>') 1 true)) (.lit ['>']))

/-- The symbol a line names behind a keyword. -/
def symbolAfter (keyword line : Text) : Option Text :=
  (Regex.match? (symbolRegex keyword) line).bind fun captures => Regex.get captures "1".toList

/-- `_REPLACE_SYMBOL_RE.match(line)`. -/
def replaceSymbol? (line : Text) : Option Text := symbolAfter "replace ".toList line

/-- `_HALT_SYMBOL_RE.match(line)`. -/
def haltSymbol? (line : Text) : Option Text := symbolAfter "halt at ".toList line

/-- The symbol of a flush-left directive. -/
def directiveSymbol? (line : Text) : Option Text :=
  match replaceSymbol? line with
  | some symbol => some symbol
  | none => haltSymbol? line

theorem symbolAfter_eq_some_iff {keyword line symbol : Text} :
    symbolAfter keyword line = some symbol ↔
      ∃ rest, line = keyword ++ '<' :: (symbol ++ '>' :: rest) ∧ '>' ∉ symbol ∧ symbol ≠ [] := by
  -- the matches there are: one for each way to end the symbol at a `>`
  have hmatches : ∀ m, m ∈ Regex.matchAt (symbolRegex keyword) line →
      ∃ w, line = keyword ++ '<' :: (w ++ '>' :: m.2) ∧ '>' ∉ w ∧ w ≠ [] ∧
        m.1 = [("1".toList, w)] := by
    rintro ⟨captures, rest⟩ hm
    obtain ⟨m₁, h₁, m₂, h₂, heq⟩ := Regex.mem_matchAt_seq.mp hm
    obtain ⟨hnil₁, hline⟩ := Regex.mem_matchAt_lit.mp h₁
    obtain ⟨m₃, h₃, m₄, h₄, rfl⟩ := Regex.mem_matchAt_seq.mp h₂
    obtain ⟨w, hw, hcapture, hclass, hlength⟩ := Regex.mem_matchAt_group_many.mp h₃
    obtain ⟨hnil₄, hrest⟩ := Regex.mem_matchAt_lit.mp h₄
    obtain ⟨hcaptures, hafter⟩ := Prod.mk.inj heq
    refine ⟨w, ?_, ?_, ?_, ?_⟩
    · show line = keyword ++ '<' :: (w ++ '>' :: rest)
      rw [hline, hw, hrest, hafter]
      simp
    · intro hmem
      have := hclass '>' hmem
      simp at this
    · rintro rfl
      exact absurd hlength (by decide)
    · show captures = _
      rw [hcaptures, hnil₁, hcapture, hnil₄]
      rfl
  constructor
  · intro h
    obtain ⟨captures, hmatch, hget⟩ := Option.bind_eq_some_iff.mp h
    obtain ⟨m, hm, hcaptures⟩ := Regex.exists_mem_of_match? hmatch
    obtain ⟨w, hline, hplain, hne, hm₁⟩ := hmatches m hm
    have hsymbol : w = symbol := by
      rw [← hcaptures, hm₁] at hget
      exact Option.some.inj hget
    subst hsymbol
    exact ⟨m.2, hline, hplain, hne⟩
  · rintro ⟨rest, hline, hplain, hne⟩
    have hmatch : Regex.match? (symbolRegex keyword) line = some [("1".toList, symbol)] := by
      apply Regex.match?_of_unique
      · refine ⟨([("1".toList, symbol)], rest), ?_⟩
        refine Regex.mem_matchAt_seq.mpr
          ⟨([], symbol ++ '>' :: rest), Regex.mem_matchAt_lit.mpr ⟨rfl, by rw [hline]; simp⟩,
            ([("1".toList, symbol)], rest), ?_, rfl⟩
        refine Regex.mem_matchAt_seq.mpr
          ⟨([("1".toList, symbol)], '>' :: rest), ?_, ([], rest),
            Regex.mem_matchAt_lit.mpr ⟨rfl, rfl⟩, rfl⟩
        refine Regex.mem_matchAt_group_many.mpr ⟨symbol, rfl, rfl, ?_, ?_⟩
        · intro c hc
          have hc' : c ≠ '>' := by
            rintro rfl
            exact hplain hc
          simpa using hc'
        · exact List.length_pos_iff.mpr hne
      · intro m hm
        obtain ⟨w, hline', hplain', -, hm₁⟩ := hmatches m hm
        rw [hline] at hline'
        have htail := (List.cons.inj (List.append_cancel_left hline')).2
        have hsame : split1 '>' (_ ++ '>' :: rest) = (_, rest) := split1_append hplain
        rw [htail, split1_append hplain'] at hsame
        rw [hm₁, (Prod.mk.inj hsame).1]
    rw [symbolAfter, hmatch]
    rfl

/-- The line that ends a replacement block. -/
def endLine : Text := "end".toList

/-- `s.replace(old, new, 1)`. -/
def replaceFirst (old new : Text) : Text → Text
  | [] => if old = [] then new else []
  | c :: s => if old <+: c :: s then new ++ (c :: s).drop old.length else c :: replaceFirst old new s

/-- The line with one symbol put for another. -/
def renameIn (line symbol resolved : Text) : Text :=
  replaceFirst (['<'] ++ symbol ++ ['>']) (['<'] ++ resolved ++ ['>']) line

/-- The name of a symbol's PLT entry. -/
def pltName (symbol : Text) : Text := symbol ++ "@plt".toList

/-- `_resolve_binsec_symbol`. -/
def resolveBinsecSymbol (surface : Surface) (symbol : Text) : Option Text :=
  if pltName symbol ∈ surface.pltSymbols then some (pltName symbol)
  else if symbol ∈ surface.symbols then some symbol
  else none

/-! ### The rewriting -/

/-- The lines up to the first `end`, and those behind it. -/
def splitAtEnd : List Text → Option (List Text × List Text)
  | [] => none
  | line :: lines =>
    if line = endLine then some ([], lines)
    else (splitAtEnd lines).map fun parts => (line :: parts.1, parts.2)

theorem splitAtEnd_eq_some_iff {lines body rest : List Text} :
    splitAtEnd lines = some (body, rest) ↔
      lines = body ++ endLine :: rest ∧ endLine ∉ body := by
  -- the split is at the first `endLine`, so the body is found by induction on the lines
  induction lines generalizing body with
  | nil =>
    constructor
    · intro h
      cases h
    · rintro ⟨h, -⟩
      cases body <;> cases h
  | cons line lines ih =>
    rw [splitAtEnd]
    by_cases hline : line = endLine
    · rw [if_pos hline]
      constructor
      · intro h
        cases h
        exact ⟨by rw [hline]; rfl, List.not_mem_nil⟩
      · rintro ⟨h, hbody⟩
        cases body with
        | nil => cases h; rfl
        | cons first body =>
          cases h
          exact absurd (by rw [← hline]; exact List.mem_cons_self) hbody
    · rw [if_neg hline]
      constructor
      · intro h
        cases hsplit : splitAtEnd lines with
        | none =>
          rw [hsplit] at h
          cases h
        | some parts =>
          rw [hsplit] at h
          cases h
          obtain ⟨heq, hbody⟩ := ih.mp hsplit
          refine ⟨by rw [heq]; rfl, ?_⟩
          intro hmem
          rcases List.mem_cons.mp hmem with heq | hmem
          · exact hline heq.symm
          · exact hbody hmem
      · rintro ⟨h, hbody⟩
        cases body with
        | nil =>
          cases h
          exact absurd rfl hline
        | cons first body =>
          cases h
          have hsplit := ih.mpr ⟨rfl, fun hmem => hbody (List.mem_cons_of_mem _ hmem)⟩
          rw [hsplit]
          rfl

theorem splitAtEnd_eq_none_iff {lines : List Text} :
    splitAtEnd lines = none ↔ endLine ∉ lines := by
  induction lines with
  | nil => exact iff_of_true rfl List.not_mem_nil
  | cons line lines ih =>
    rw [splitAtEnd]
    by_cases hline : line = endLine
    · rw [if_pos hline, hline]
      constructor
      · intro h
        cases h
      · intro h
        exact absurd List.mem_cons_self h
    · rw [if_neg hline, Option.map_eq_none_iff, ih, List.mem_cons, not_or]
      exact ⟨fun h => ⟨fun heq => hline heq.symm, h⟩, fun h => h.2⟩

theorem length_of_splitAtEnd {lines : List Text} {parts : List Text × List Text}
    (h : splitAtEnd lines = some parts) : parts.2.length < lines.length := by
  rw [(splitAtEnd_eq_some_iff.mp h).1, List.length_append, List.length_cons]
  omega

/-- A replacement block, under the name its symbol resolves to, before the lines behind it. -/
def keepBlock (surface : Surface) (line symbol : Text) (body rewritten : List Text) : List Text :=
  match resolveBinsecSymbol surface symbol with
  | some resolved => renameIn line symbol resolved :: (body ++ endLine :: rewritten)
  | none => rewritten

/-- A halt line, under the name its symbol resolves to, before the lines behind it. -/
def keepHalt (surface : Surface) (line symbol : Text) (rewritten : List Text) : List Text :=
  match resolveBinsecSymbol surface symbol with
  | some resolved => renameIn line symbol resolved :: rewritten
  | none => rewritten

/-- The error for a block without end. `repr` writes a text as a Python literal, `configPath`
is the path in the message. -/
def unterminatedError (repr : Text → Text) (configPath symbol : Text) : Exc :=
  .valueError ("unterminated replacement block for ".toList ++ repr symbol ++
    " in ".toList ++ configPath)

/-- The loop of `_rewrite_binsec_config` over the lines. -/
def rewriteDirectives (repr : Text → Text) (configPath : Text) (surface : Surface) :
    List Text → Except Exc (List Text)
  | [] => .ok []
  | line :: lines =>
    match replaceSymbol? line with
    | some symbol =>
      match _h : splitAtEnd lines with
      | none => .error (unterminatedError repr configPath symbol)
      | some (body, rest) =>
        (rewriteDirectives repr configPath surface rest).map (keepBlock surface line symbol body)
    | none =>
      match haltSymbol? line with
      | some symbol =>
        (rewriteDirectives repr configPath surface lines).map (keepHalt surface line symbol)
      | none => (rewriteDirectives repr configPath surface lines).map (line :: ·)
termination_by lines => lines.length
decreasing_by
  · have := length_of_splitAtEnd _h
    simp only [List.length_cons] at this ⊢
    omega
  · simp
  · simp

/-- `_configured_binsec_hook_symbols_from_lines`. -/
def configuredHookSymbols (lines : List Text) : List Text := lines.filterMap directiveSymbol?

/-- `_runtime_haltable_plt_symbols`. -/
def runtimeHaltablePltSymbols (surface : Surface) (configured : List Text) : List Text :=
  ((surface.pltSections.items.filter fun entry =>
      entry.1 ∉ configured ∧ (entry.2 = ".plt".toList ∨ entry.2 = ".plt.sec".toList)).map
    Prod.fst).mergeSort fun a b => !decide (b < a)

/-- The stub that ends a path in a failed assertion. -/
def failureStub (symbol : Text) : List Text :=
  ["replace <".toList ++ symbol ++ "> by".toList,
    "  assert 0x0<1> = 0x1<1>".toList,
    "  halt".toList,
    endLine]

/-- The stubs, with an empty line between two of them. -/
def failureStubs : List Text → List Text
  | [] => []
  | [symbol] => failureStub symbol
  | symbol :: symbols => failureStub symbol ++ [] :: failureStubs symbols

/-- `line.startswith("explore ")`. -/
def isExplore (line : Text) : Bool := "explore ".toList.isPrefixOf line

/-- `_insert_binsec_runtime_failure_stubs`. -/
def insertFailureStubs (lines symbols : List Text) : List Text :=
  if symbols = [] then lines
  else lines.takeWhile (fun line => !isExplore line) ++ failureStubs symbols ++
    lines.dropWhile fun line => !isExplore line

/-- `_rewrite_binsec_config` on the lines of the configuration. -/
def rewriteLines (repr : Text → Text) (configPath : Text) (surface : Surface)
    (lines : List Text) : Except Exc (List Text) := do
  let rewritten ← rewriteDirectives repr configPath surface lines
  let configured := configuredHookSymbols rewritten
  let unresolved := runtimeHaltablePltSymbols surface configured
  return insertFailureStubs rewritten unresolved

/-- `_rewrite_binsec_config` on the text of the configuration. -/
def rewriteBinsecConfig (repr : Text → Text) (configPath : Text) (surface : Surface)
    (text : Text) : Except Exc Text := do
  let rewritten ← rewriteLines repr configPath surface (splitlines (universalNewlines text))
  return join ['\n'] rewritten ++ ['\n']

/-! ### What becomes of the lines -/

/-- What the rewriting makes of the lines of a configuration. -/
inductive Rewritten (surface : Surface) : List Text → List Text → Prop
  | nil : Rewritten surface [] []
  | keepBlock {line symbol resolved : Text} {body lines out : List Text} :
      replaceSymbol? line = some symbol → resolveBinsecSymbol surface symbol = some resolved →
      endLine ∉ body → Rewritten surface lines out →
      Rewritten surface (line :: (body ++ endLine :: lines))
        (renameIn line symbol resolved :: (body ++ endLine :: out))
  | dropBlock {line symbol : Text} {body lines out : List Text} :
      replaceSymbol? line = some symbol → resolveBinsecSymbol surface symbol = none →
      endLine ∉ body → Rewritten surface lines out →
      Rewritten surface (line :: (body ++ endLine :: lines)) out
  | keepHalt {line symbol resolved : Text} {lines out : List Text} :
      replaceSymbol? line = none → haltSymbol? line = some symbol →
      resolveBinsecSymbol surface symbol = some resolved → Rewritten surface lines out →
      Rewritten surface (line :: lines) (renameIn line symbol resolved :: out)
  | dropHalt {line symbol : Text} {lines out : List Text} :
      replaceSymbol? line = none → haltSymbol? line = some symbol →
      resolveBinsecSymbol surface symbol = none → Rewritten surface lines out →
      Rewritten surface (line :: lines) out
  | other {line : Text} {lines out : List Text} :
      directiveSymbol? line = none → Rewritten surface lines out →
      Rewritten surface (line :: lines) (line :: out)

/-- A replacement block that no `end` closes. -/
def Unterminated (lines : List Text) : Prop :=
  ∃ before line after, lines = before ++ line :: after ∧
    (replaceSymbol? line).isSome ∧ endLine ∉ after

/-- The bodies of replacement blocks have no directive at the start of a line. -/
def PlainBodies (lines : List Text) : Prop :=
  ∀ before line body after, lines = before ++ line :: (body ++ after) →
    (replaceSymbol? line).isSome → endLine ∉ body → ∀ l ∈ body, directiveSymbol? l = none

section
variable {repr : Text → Text} {configPath : Text} {surface : Surface}

theorem rewriteDirectives_unterminated {line symbol : Text} {lines : List Text}
    (hreplace : replaceSymbol? line = some symbol) (hsplit : splitAtEnd lines = none) :
    rewriteDirectives repr configPath surface (line :: lines) =
      .error (unterminatedError repr configPath symbol) := by
  rw [rewriteDirectives, hreplace]
  dsimp only
  split
  · rfl
  · next h =>
    rw [hsplit] at h
    cases h

theorem rewriteDirectives_block {line symbol : Text} {lines body rest : List Text}
    (hreplace : replaceSymbol? line = some symbol)
    (hsplit : splitAtEnd lines = some (body, rest)) :
    rewriteDirectives repr configPath surface (line :: lines) =
      (rewriteDirectives repr configPath surface rest).map
        (keepBlock surface line symbol body) := by
  rw [rewriteDirectives, hreplace]
  dsimp only
  split
  · next h =>
    rw [hsplit] at h
    cases h
  · next body' rest' h =>
    obtain ⟨rfl, rfl⟩ := Prod.mk.inj (Option.some.inj (hsplit.symm.trans h))
    rfl

theorem rewriteDirectives_halt {line symbol : Text} {lines : List Text}
    (hreplace : replaceSymbol? line = none) (hhalt : haltSymbol? line = some symbol) :
    rewriteDirectives repr configPath surface (line :: lines) =
      (rewriteDirectives repr configPath surface lines).map (keepHalt surface line symbol) := by
  rw [rewriteDirectives, hreplace, hhalt]

theorem rewriteDirectives_other {line : Text} {lines : List Text}
    (hreplace : replaceSymbol? line = none) (hhalt : haltSymbol? line = none) :
    rewriteDirectives repr configPath surface (line :: lines) =
      (rewriteDirectives repr configPath surface lines).map (line :: ·) := by
  rw [rewriteDirectives, hreplace, hhalt]

theorem exists_of_map_eq_ok {α β : Type} {x : Except Exc α} {f : α → β} {b : β}
    (h : x.map f = .ok b) : ∃ a, x = .ok a ∧ f a = b := by
  cases x with
  | error e => cases h
  | ok a => exact ⟨a, rfl, Except.ok.inj h⟩

theorem exists_of_map_eq_error {α β : Type} {x : Except Exc α} {f : α → β} {e : Exc}
    (h : x.map f = .error e) : x = .error e := by
  cases x with
  | error e' => rw [show e' = e from Except.error.inj h]
  | ok a => cases h

theorem directiveSymbol?_eq_none {line : Text} (hreplace : replaceSymbol? line = none)
    (hhalt : haltSymbol? line = none) : directiveSymbol? line = none := by
  rw [directiveSymbol?, hreplace]
  exact hhalt

/-- **The loop**: what it returns is the rewriting of the lines. -/
theorem rewriteDirectives_spec (lines : List Text) :
    ∀ {out : List Text}, rewriteDirectives repr configPath surface lines = .ok out →
      Rewritten surface lines out := by
  induction lines using rewriteDirectives.induct with
  | case1 =>
    intro out h
    rw [rewriteDirectives] at h
    cases h
    exact .nil
  | case2 line lines symbol hreplace hsplit =>
    intro out h
    rw [rewriteDirectives_unterminated hreplace hsplit] at h
    cases h
  | case3 line lines symbol hreplace body rest hsplit ih =>
    intro out h
    obtain ⟨hlines, hbody⟩ := splitAtEnd_eq_some_iff.mp hsplit
    rw [rewriteDirectives_block hreplace hsplit] at h
    obtain ⟨rewritten, hrest, rfl⟩ := exists_of_map_eq_ok h
    rw [hlines, keepBlock]
    cases hresolve : resolveBinsecSymbol surface symbol with
    | none => exact .dropBlock hreplace hresolve hbody (ih hrest)
    | some resolved => exact .keepBlock hreplace hresolve hbody (ih hrest)
  | case4 line lines hreplace symbol hhalt ih =>
    intro out h
    rw [rewriteDirectives_halt hreplace hhalt] at h
    obtain ⟨rewritten, hrest, rfl⟩ := exists_of_map_eq_ok h
    rw [keepHalt]
    cases hresolve : resolveBinsecSymbol surface symbol with
    | none => exact .dropHalt hreplace hhalt hresolve (ih hrest)
    | some resolved => exact .keepHalt hreplace hhalt hresolve (ih hrest)
  | case5 line lines hreplace hhalt ih =>
    intro out h
    rw [rewriteDirectives_other hreplace hhalt] at h
    obtain ⟨rewritten, hrest, rfl⟩ := exists_of_map_eq_ok h
    exact .other (directiveSymbol?_eq_none hreplace hhalt) (ih hrest)

theorem unterminated_cons {line : Text} {lines : List Text} (h : Unterminated lines) :
    Unterminated (line :: lines) := by
  obtain ⟨before, header, after, rfl, hheader, hafter⟩ := h
  exact ⟨line :: before, header, after, rfl, hheader, hafter⟩

/-- An unterminated block lies behind every line but its own first. -/
theorem unterminated_of_cons {line : Text} {lines : List Text}
    (h : Unterminated (line :: lines)) (hline : (replaceSymbol? line).isSome → endLine ∈ lines) :
    Unterminated lines := by
  obtain ⟨before, header, after, heq, hheader, hafter⟩ := h
  cases before with
  | nil =>
    cases heq
    exact absurd (hline hheader) hafter
  | cons first before =>
    cases heq
    exact ⟨before, header, after, rfl, hheader, hafter⟩

/-- An unterminated block lies behind every `end`. -/
theorem unterminated_of_append {body rest : List Text}
    (h : Unterminated (body ++ endLine :: rest)) : Unterminated rest := by
  induction body with
  | nil =>
    apply unterminated_of_cons h
    intro hend
    exact absurd hend (by decide)
  | cons line body ih =>
    apply ih
    exact unterminated_of_cons h fun _ => List.mem_append_right _ List.mem_cons_self

/-- **The loop fails** exactly at a block without end. -/
theorem rewriteDirectives_error_iff (lines : List Text) :
    (∃ symbol, rewriteDirectives repr configPath surface lines =
      .error (unterminatedError repr configPath symbol)) ↔ Unterminated lines := by
  induction lines using rewriteDirectives.induct with
  | case1 =>
    constructor
    · rintro ⟨symbol, h⟩
      rw [rewriteDirectives] at h
      cases h
    · rintro ⟨before, line, after, heq, -⟩
      cases before <;> cases heq
  | case2 line lines symbol hreplace hsplit =>
    constructor
    · intro _
      refine ⟨[], line, lines, rfl, ?_, splitAtEnd_eq_none_iff.mp hsplit⟩
      rw [hreplace]
      rfl
    · intro _
      exact ⟨symbol, rewriteDirectives_unterminated hreplace hsplit⟩
  | case3 line lines symbol hreplace body rest hsplit ih =>
    obtain ⟨hlines, -⟩ := splitAtEnd_eq_some_iff.mp hsplit
    constructor
    · rintro ⟨culprit, h⟩
      rw [rewriteDirectives_block hreplace hsplit] at h
      obtain ⟨before, header, after, rfl, hrest⟩ :=
        ih.mp ⟨culprit, exists_of_map_eq_error h⟩
      -- a block that ends is copied, so the open one lies behind it
      refine ⟨line :: (body ++ endLine :: before), header, after, ?_, hrest⟩
      rw [hlines]
      simp
    · intro h
      rw [hlines] at h
      -- this header has its `end`: the one that lacks it is another line
      have hbehind : Unterminated (body ++ endLine :: rest) :=
        unterminated_of_cons h fun _ => List.mem_append_right _ List.mem_cons_self
      obtain ⟨culprit, hrest⟩ := ih.mpr (unterminated_of_append hbehind)
      refine ⟨culprit, ?_⟩
      rw [rewriteDirectives_block hreplace hsplit, hrest]
      rfl
  | case4 line lines hreplace symbol hhalt ih =>
    constructor
    · rintro ⟨culprit, h⟩
      rw [rewriteDirectives_halt hreplace hhalt] at h
      exact unterminated_cons (ih.mp ⟨culprit, exists_of_map_eq_error h⟩)
    · intro h
      have hbehind : Unterminated lines := by
        apply unterminated_of_cons h
        rw [hreplace]
        intro hsome
        cases hsome
      obtain ⟨culprit, hrest⟩ := ih.mpr hbehind
      refine ⟨culprit, ?_⟩
      rw [rewriteDirectives_halt hreplace hhalt, hrest]
      rfl
  | case5 line lines hreplace hhalt ih =>
    constructor
    · rintro ⟨culprit, h⟩
      rw [rewriteDirectives_other hreplace hhalt] at h
      exact unterminated_cons (ih.mp ⟨culprit, exists_of_map_eq_error h⟩)
    · intro h
      have hbehind : Unterminated lines := by
        apply unterminated_of_cons h
        rw [hreplace]
        intro hsome
        cases hsome
      obtain ⟨culprit, hrest⟩ := ih.mpr hbehind
      refine ⟨culprit, ?_⟩
      rw [rewriteDirectives_other hreplace hhalt, hrest]
      rfl

end

/-! ### The symbols that the output names -/

/-- A symbol the executable resolves, named by its PLT entry if there is one. -/
def Resolvable (surface : Surface) (symbol : Text) : Prop :=
  (∃ plain, symbol = pltName plain ∧ symbol ∈ surface.pltSymbols) ∨
    (symbol ∈ surface.symbols ∧ pltName symbol ∉ surface.pltSymbols)

theorem resolvable_of_resolve {surface : Surface} {symbol resolved : Text}
    (h : resolveBinsecSymbol surface symbol = some resolved) : Resolvable surface resolved := by
  rw [resolveBinsecSymbol] at h
  by_cases hplt : pltName symbol ∈ surface.pltSymbols
  · rw [if_pos hplt] at h
    cases h
    exact Or.inl ⟨symbol, rfl, hplt⟩
  · rw [if_neg hplt] at h
    by_cases hsymbol : symbol ∈ surface.symbols
    · rw [if_pos hsymbol] at h
      cases h
      exact Or.inr ⟨hsymbol, hplt⟩
    · rw [if_neg hsymbol] at h
      cases h

/-- Resolving keeps a symbol readable between angle brackets. -/
theorem plain_of_resolve {surface : Surface} {symbol resolved : Text}
    (h : resolveBinsecSymbol surface symbol = some resolved) (hplain : '>' ∉ symbol)
    (hne : symbol ≠ []) : '>' ∉ resolved ∧ resolved ≠ [] := by
  rw [resolveBinsecSymbol] at h
  by_cases hplt : pltName symbol ∈ surface.pltSymbols
  · rw [if_pos hplt] at h
    cases h
    refine ⟨?_, ?_⟩
    · intro hmem
      rcases List.mem_append.mp hmem with hmem | hmem
      · exact hplain hmem
      · exact absurd hmem (by decide)
    · intro hnil
      exact hne (List.append_eq_nil_iff.mp hnil).1
  · rw [if_neg hplt] at h
    by_cases hsymbol : symbol ∈ surface.symbols
    · rw [if_pos hsymbol] at h
      cases h
      exact ⟨hplain, hne⟩
    · rw [if_neg hsymbol] at h
      cases h

theorem replaceFirst_append {keyword old new s : Text} (hkeyword : '<' ∉ keyword) :
    replaceFirst ('<' :: old) new (keyword ++ s) = keyword ++ replaceFirst ('<' :: old) new s := by
  induction keyword with
  | nil => rfl
  | cons c keyword ih =>
    have hc : c ≠ '<' := by
      rintro rfl
      exact hkeyword List.mem_cons_self
    have hprefix : ¬ ('<' :: old) <+: c :: (keyword ++ s) := by
      intro h
      exact hc (List.cons_prefix_cons.mp h).1.symm
    rw [List.cons_append, replaceFirst, if_neg hprefix,
      ih fun hmem => hkeyword (List.mem_cons_of_mem c hmem)]
    rfl

/-- Renaming in a directive changes its symbol and nothing else. -/
theorem renameIn_directive {keyword symbol rest : Text} (hkeyword : '<' ∉ keyword)
    (resolved : Text) :
    renameIn (keyword ++ '<' :: (symbol ++ '>' :: rest)) symbol resolved =
      keyword ++ '<' :: (resolved ++ '>' :: rest) := by
  have hsplit : '<' :: (symbol ++ '>' :: rest) = ('<' :: (symbol ++ ['>'])) ++ rest := by simp
  rw [renameIn]
  show replaceFirst ('<' :: (symbol ++ ['>'])) _ _ = _
  rw [replaceFirst_append hkeyword, replaceFirst,
    if_pos (by rw [hsplit]; exact List.prefix_append _ _), hsplit, List.drop_left]
  simp

theorem symbolAfter_renameIn {keyword line symbol resolved : Text} {surface : Surface}
    (hkeyword : '<' ∉ keyword) (hline : symbolAfter keyword line = some symbol)
    (hresolve : resolveBinsecSymbol surface symbol = some resolved) :
    symbolAfter keyword (renameIn line symbol resolved) = some resolved := by
  obtain ⟨rest, rfl, hplain, hne⟩ := symbolAfter_eq_some_iff.mp hline
  rw [renameIn_directive hkeyword]
  exact symbolAfter_eq_some_iff.mpr ⟨rest, rfl, plain_of_resolve hresolve hplain hne⟩

/-- No line is a halt line and the first line of a block at once. -/
theorem replaceSymbol?_of_halt {line symbol : Text} (h : haltSymbol? line = some symbol) :
    replaceSymbol? line = none := by
  obtain ⟨rest, rfl, -⟩ := symbolAfter_eq_some_iff.mp h
  cases hreplace : replaceSymbol? ("halt at ".toList ++ '<' :: (symbol ++ '>' :: rest)) with
  | none => rfl
  | some other =>
    obtain ⟨rest', heq, -⟩ := symbolAfter_eq_some_iff.mp hreplace
    exact absurd (List.cons.inj heq).1 (by decide)

/-- What is kept of a block is its body, and its first line under the resolved name. -/
theorem directiveSymbol?_renameIn_replace {line symbol resolved : Text} {surface : Surface}
    (hreplace : replaceSymbol? line = some symbol)
    (hresolve : resolveBinsecSymbol surface symbol = some resolved) :
    directiveSymbol? (renameIn line symbol resolved) = some resolved := by
  have hrenamed : replaceSymbol? (renameIn line symbol resolved) = some resolved :=
    symbolAfter_renameIn (by decide) hreplace hresolve
  rw [directiveSymbol?, hrenamed]

theorem directiveSymbol?_renameIn_halt {line symbol resolved : Text} {surface : Surface}
    (hhalt : haltSymbol? line = some symbol)
    (hresolve : resolveBinsecSymbol surface symbol = some resolved) :
    directiveSymbol? (renameIn line symbol resolved) = some resolved := by
  have hrenamed : haltSymbol? (renameIn line symbol resolved) = some resolved :=
    symbolAfter_renameIn (by decide) hhalt hresolve
  rw [directiveSymbol?, replaceSymbol?_of_halt hrenamed, hrenamed]

theorem directiveSymbol?_endLine : directiveSymbol? endLine = none := by decide

theorem plainBodies_of_cons {line : Text} {lines : List Text} (h : PlainBodies (line :: lines)) :
    PlainBodies lines := by
  rintro before header body after rfl
  exact h (line :: before) header body after rfl

theorem plainBodies_of_append {front lines : List Text} (h : PlainBodies (front ++ lines)) :
    PlainBodies lines := by
  induction front with
  | nil => exact h
  | cons line front ih => exact ih (plainBodies_of_cons h)

/-- **Every directive that is kept** names a symbol the executable resolves. -/
theorem Rewritten.resolvable {surface : Surface} {lines out : List Text}
    (h : Rewritten surface lines out) (hbodies : PlainBodies lines) :
    ∀ line ∈ out, ∀ symbol, directiveSymbol? line = some symbol → Resolvable surface symbol := by
  induction h with
  | nil =>
    intro line hline
    cases hline
  | @keepBlock header name resolved body lines out hreplace hresolve hbody _ ih =>
    have hsplit : header :: (body ++ endLine :: lines) =
        (header :: (body ++ [endLine])) ++ lines := by simp
    -- the header is the only directive of its block: the body is plain
    have hplain := hbodies [] header body (endLine :: lines) rfl (by rw [hreplace]; rfl) hbody
    intro line hline symbol hsymbol
    rcases List.mem_cons.mp hline with rfl | hline
    · rw [directiveSymbol?_renameIn_replace hreplace hresolve] at hsymbol
      cases hsymbol
      exact resolvable_of_resolve hresolve
    · rcases List.mem_append.mp hline with hline | hline
      · rw [hplain line hline] at hsymbol
        cases hsymbol
      · rcases List.mem_cons.mp hline with rfl | hline
        · rw [directiveSymbol?_endLine] at hsymbol
          cases hsymbol
        · rw [hsplit] at hbodies
          exact ih (plainBodies_of_append hbodies) line hline symbol hsymbol
  | @dropBlock header name body lines out hreplace _ _ _ ih =>
    have hsplit : header :: (body ++ endLine :: lines) =
        (header :: (body ++ [endLine])) ++ lines := by simp
    rw [hsplit] at hbodies
    exact ih (plainBodies_of_append hbodies)
  | keepHalt _ hhalt hresolve _ ih =>
    intro line hline symbol hsymbol
    rcases List.mem_cons.mp hline with rfl | hline
    · rw [directiveSymbol?_renameIn_halt hhalt hresolve] at hsymbol
      cases hsymbol
      exact resolvable_of_resolve hresolve
    · exact ih (plainBodies_of_cons hbodies) line hline symbol hsymbol
  | dropHalt _ _ _ _ ih => exact ih (plainBodies_of_cons hbodies)
  | other hnone _ ih =>
    intro line hline symbol hsymbol
    rcases List.mem_cons.mp hline with rfl | hline
    · rw [hnone] at hsymbol
      cases hsymbol
    · exact ih (plainBodies_of_cons hbodies) line hline symbol hsymbol

/-! ### The stubs -/

theorem mem_runtimeHaltablePltSymbols {surface : Surface} {configured : List Text}
    {symbol : Text} :
    symbol ∈ runtimeHaltablePltSymbols surface configured ↔
      ∃ name, surface.pltSections.get? symbol = some name ∧
        (name = ".plt".toList ∨ name = ".plt.sec".toList) ∧ symbol ∉ configured := by
  rw [runtimeHaltablePltSymbols, List.mem_mergeSort, List.mem_map]
  constructor
  · rintro ⟨⟨key, name⟩, hentry, rfl⟩
    obtain ⟨hmem, hkept⟩ := List.mem_filter.mp hentry
    obtain ⟨hnew, hsection⟩ := of_decide_eq_true hkept
    exact ⟨name, Dict.mem_items_iff.mp hmem, hsection, hnew⟩
  · rintro ⟨name, hget, hsection, hnew⟩
    refine ⟨(symbol, name), List.mem_filter.mpr ⟨Dict.mem_items_iff.mpr hget, ?_⟩, rfl⟩
    exact decide_eq_true ⟨hnew, hsection⟩

theorem nodup_runtimeHaltablePltSymbols (surface : Surface) (configured : List Text) :
    (runtimeHaltablePltSymbols surface configured).Nodup := by
  rw [runtimeHaltablePltSymbols, (List.mergeSort_perm _ _).nodup_iff]
  exact surface.pltSections.nodup.sublist (List.filter_sublist.map Prod.fst)

theorem isExplore_replace (rest : Text) : isExplore ("replace <".toList ++ rest) = false := rfl

theorem isExplore_failureStubs (symbols : List Text) :
    ∀ line ∈ failureStubs symbols, isExplore line = false := by
  have hstub : ∀ symbol, ∀ line ∈ failureStub symbol, isExplore line = false := by
    intro symbol line hline
    rcases List.mem_cons.mp hline with rfl | hline
    · rw [List.append_assoc]
      exact isExplore_replace _
    · have hfixed : ∀ l ∈ (failureStub []).tail, isExplore l = false := by decide
      exact hfixed line hline
  intro line hline
  induction symbols with
  | nil => cases hline
  | cons symbol symbols ih =>
    cases symbols with
    | nil => exact hstub symbol line hline
    | cons next symbols =>
      rcases List.mem_append.mp hline with hline | hline
      · exact hstub symbol line hline
      · rcases List.mem_cons.mp hline with rfl | hline
        · rfl
        · exact ih hline

theorem mem_configuredHookSymbols {lines : List Text} {symbol : Text} :
    symbol ∈ configuredHookSymbols lines ↔ ∃ line ∈ lines, directiveSymbol? line = some symbol :=
  List.mem_filterMap

/-- Where the stubs go: behind lines that start no exploration, and before the first that
does. -/
theorem insertFailureStubs_eq (lines symbols : List Text) :
    ∃ before after, insertFailureStubs lines symbols = before ++ failureStubs symbols ++ after ∧
      lines = before ++ after ∧ ∀ line ∈ before, isExplore line = false := by
  by_cases hnil : symbols = []
  · refine ⟨[], lines, ?_, rfl, fun _ hline => absurd hline List.not_mem_nil⟩
    rw [insertFailureStubs, if_pos hnil, hnil]
    rfl
  · refine ⟨lines.takeWhile fun line => !isExplore line,
      lines.dropWhile fun line => !isExplore line, ?_, ?_, ?_⟩
    · rw [insertFailureStubs, if_neg hnil]
    · exact List.takeWhile_append_dropWhile.symm
    · intro line hline
      have := List.mem_takeWhile_imp hline
      simpa using this

/-! ### The whole rewriting -/

/-- The loop returns, or fails at a block without end. -/
theorem rewriteDirectives_cases (repr : Text → Text) (configPath : Text) (surface : Surface)
    (lines : List Text) :
    (∃ out, rewriteDirectives repr configPath surface lines = .ok out) ∨
      ∃ symbol, rewriteDirectives repr configPath surface lines =
        .error (unterminatedError repr configPath symbol) := by
  induction lines using rewriteDirectives.induct with
  | case1 => exact Or.inl ⟨[], by rw [rewriteDirectives]⟩
  | case2 line lines symbol hreplace hsplit =>
    exact Or.inr ⟨symbol, rewriteDirectives_unterminated hreplace hsplit⟩
  | case3 line lines symbol hreplace body rest hsplit ih =>
    rw [rewriteDirectives_block hreplace hsplit]
    rcases ih with ⟨out, h⟩ | ⟨culprit, h⟩
    · exact Or.inl ⟨keepBlock surface line symbol body out, by rw [h]; rfl⟩
    · exact Or.inr ⟨culprit, by rw [h]; rfl⟩
  | case4 line lines hreplace symbol hhalt ih =>
    rw [rewriteDirectives_halt hreplace hhalt]
    rcases ih with ⟨out, h⟩ | ⟨culprit, h⟩
    · exact Or.inl ⟨keepHalt surface line symbol out, by rw [h]; rfl⟩
    · exact Or.inr ⟨culprit, by rw [h]; rfl⟩
  | case5 line lines hreplace hhalt ih =>
    rw [rewriteDirectives_other hreplace hhalt]
    rcases ih with ⟨out, h⟩ | ⟨culprit, h⟩
    · exact Or.inl ⟨line :: out, by rw [h]; rfl⟩
    · exact Or.inr ⟨culprit, by rw [h]; rfl⟩

/-- What the rewriting returns once the loop has. -/
theorem rewriteLines_of_ok {repr : Text → Text} {configPath : Text} {surface : Surface}
    {lines kept : List Text} (h : rewriteDirectives repr configPath surface lines = .ok kept) :
    rewriteLines repr configPath surface lines = .ok (insertFailureStubs kept
      (runtimeHaltablePltSymbols surface (configuredHookSymbols kept))) := by
  rw [rewriteLines, h]
  rfl

theorem rewriteLines_error_iff (repr : Text → Text) (configPath : Text) (surface : Surface)
    (lines : List Text) :
    (∃ message, rewriteLines repr configPath surface lines = .error (.valueError message)) ↔
      Unterminated lines := by
  rcases rewriteDirectives_cases repr configPath surface lines with ⟨kept, hok⟩ | ⟨symbol, herror⟩
  · have hterminated : ¬ Unterminated lines := by
      intro h
      obtain ⟨symbol, herror⟩ := (rewriteDirectives_error_iff lines).mpr h
      rw [hok] at herror
      cases herror
    constructor
    · rintro ⟨message, h⟩
      rw [rewriteLines_of_ok hok] at h
      cases h
    · intro h
      exact absurd h hterminated
  · have hrun : rewriteLines repr configPath surface lines =
        .error (unterminatedError repr configPath symbol) := by
      rw [rewriteLines, herror]
      rfl
    constructor
    · intro _
      exact (rewriteDirectives_error_iff lines).mp ⟨symbol, herror⟩
    · intro _
      exact ⟨_, hrun⟩

/-- Lines with a block at the very start and no other directive. -/
theorem plainBodies_of_first {header : Text} {lines : List Text}
    (h : ∀ line ∈ lines, directiveSymbol? line = none) : PlainBodies (header :: lines) := by
  intro before line body after heq hline _ l hl
  cases before with
  | nil =>
    cases heq
    exact h l (List.mem_append_left _ hl)
  | cons first before =>
    cases heq
    have hnone := h line (List.mem_append_right _ List.mem_cons_self)
    rw [directiveSymbol?] at hnone
    cases hreplace : replaceSymbol? line with
    | none =>
      rw [hreplace] at hline
      cases hline
    | some symbol =>
      rw [hreplace] at hnone
      cases hnone

/-- A configuration with one block, as `binsec_base.cfg` writes them. -/
def freeConfig : List Text :=
  ["replace <free> by".toList, "  return".toList, endLine, [], "explore all".toList]

/-- An executable that imports `free` and `memmove`. -/
def freeSurface : Surface where
  symbols := ["free".toList, "memmove".toList]
  pltSections :=
    ⟨[("free@plt".toList, ".plt.sec".toList), ("memmove@plt".toList, ".plt.sec".toList)],
      by decide⟩

theorem freeConfig_plainBodies : PlainBodies freeConfig :=
  plainBodies_of_first (by decide)

end KleeDeps.Binsec

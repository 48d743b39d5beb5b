import KleeDeps.Data.Spans
import KleeDeps.Replay.Verdict

/-!
# The lines of a statement

`_statement_bounds` scans up and down from a line. Both scans pass from one line to the next
unless the upper one is blank or ends a statement, so they cut the file at the same places, and
the lines between two cuts have the same bounds.

- `first_scanUp`, `last_scanDown`: where the scans stop;
- `statementBounds_of_mem`: **all lines of a span have its bounds**;
- `statement_spans`: **to be in one span is an equivalence, and the same-expression verdict is
  symmetric and, for two lines that differ, transitive**.
-/

namespace KleeDeps.Replay

open Py Spans

/-- There is a cut behind a line that is blank or ends a statement. -/
def CutBehind (lines : List Text) (line : Nat) : Prop :=
  endsScan (lines.getD (line - 1) []) = true

/-! ### The scans -/

theorem first_scanUp (lines : List Text) {j : Nat} (hj : 1 ≤ j) :
    First (CutBehind lines) 1 j (scanUp lines j) := by
  induction j with
  | zero => omega
  | succ j ih =>
    cases j with
    | zero =>
      have hstop : scanUp lines 1 = 1 := rfl
      rw [hstop]
      exact ⟨Nat.le_refl 1, Nat.le_refl 1, fun m hm hlt => absurd hlt (by omega), .inl rfl⟩
    | succ j =>
      by_cases hcut : endsScan (lines.getD j []) = true
      · have hstop : scanUp lines (j + 1 + 1) = j + 2 := if_pos hcut
        rw [hstop]
        exact ⟨by omega, Nat.le_refl _, fun m hm hlt => absurd hlt (by omega), .inr hcut⟩
      · have hpass : scanUp lines (j + 1 + 1) = scanUp lines (j + 1) := if_neg hcut
        have h := ih (by omega)
        rw [hpass]
        refine h.of_between (Nat.le_succ_of_le h.le) fun m hm hlt => ?_
        obtain rfl : m = j + 1 := by omega
        exact hcut

theorem last_scanDown (lines : List Text) {j : Nat} (hj : 1 ≤ j) (hle : j ≤ lines.length) :
    Last (CutBehind lines) lines.length j (scanDown lines j) := by
  induction hleft : lines.length - j generalizing j with
  | zero =>
    obtain rfl : j = lines.length := by omega
    have hstop : scanDown lines lines.length = lines.length := by
      rw [scanDown, if_neg (Nat.lt_irrefl _)]
    rw [hstop]
    exact ⟨Nat.le_refl _, Nat.le_refl _, fun m hm hlt => absurd hlt (by omega), .inl rfl⟩
  | succ left ih =>
    have hlt : j < lines.length := by omega
    by_cases hcut : endsScan (lines.getD (j - 1) []) = true
    · have hstop : scanDown lines j = j := by rw [scanDown, if_pos hlt, if_pos hcut]
      rw [hstop]
      exact ⟨hle, Nat.le_refl _, fun m hm hlt => absurd hlt (by omega), .inr hcut⟩
    · have hpass : scanDown lines j = scanDown lines (j + 1) := by
        rw [scanDown, if_pos hlt, if_neg hcut]
      have h := ih (j := j + 1) (by omega) (by omega) (by omega)
      rw [hpass]
      refine h.of_between (Nat.le_of_succ_le h.le) fun m hm hlt => ?_
      obtain rfl : m = j := by omega
      exact hcut

/-! ### The bounds -/

/-- What the bounds of a line are. -/
theorem statementBounds_eq_some_iff {lines : List Text} {j : Int} {s e : Nat} :
    statementBounds lines j = some (s, e) ↔
      1 ≤ j ∧ j ≤ lines.length ∧ s ≠ e ∧ First (CutBehind lines) 1 j.toNat s ∧
        Last (CutBehind lines) lines.length j.toNat e := by
  rw [statementBounds]
  by_cases hrange : j ≤ 0 ∨ (lines.length : Int) < j
  · rw [if_pos hrange]
    constructor
    · rintro ⟨⟩
    · omega
  · rw [if_neg hrange]
    have hfirst := first_scanUp lines (j := j.toNat) (by omega)
    have hlast := last_scanDown lines (j := j.toNat) (by omega) (by omega)
    dsimp only
    constructor
    · intro h
      split at h
      · cases h
      · rename_i hne
        obtain ⟨rfl, rfl⟩ := Prod.mk.inj (Option.some.inj h)
        exact ⟨by omega, by omega, hne, hfirst, hlast⟩
    · rintro ⟨-, -, hne, hs, he⟩
      rw [hfirst.unique hs, hlast.unique he, if_neg hne]

/-- **All lines of a span have its bounds.** -/
theorem statementBounds_of_mem {lines : List Text} {j k : Int} {s e : Nat}
    (h : statementBounds lines j = some (s, e)) (hs : s ≤ k) (he : k ≤ e) :
    statementBounds lines k = some (s, e) := by
  obtain ⟨hpos, hle, hne, hfirst, hlast⟩ := statementBounds_eq_some_iff.mp h
  have hbound := hfirst.bound_le
  have hbound' := hlast.le_bound
  refine statementBounds_eq_some_iff.mpr ⟨by omega, by omega, hne, ?_, ?_⟩
  · exact hfirst.of_between (by omega) fun m hm hlt => hlast.uncut m hm (by omega)
  · exact hlast.of_between (by omega) fun m hm hlt => hfirst.uncut m (by omega) hlt

theorem mem_of_statementBounds {lines : List Text} {j : Int} {s e : Nat}
    (h : statementBounds lines j = some (s, e)) : (s : Int) ≤ j ∧ j ≤ e := by
  obtain ⟨hpos, -, -, hfirst, hlast⟩ := statementBounds_eq_some_iff.mp h
  have hs := hfirst.le
  have he := hlast.le
  omega

/-! ### Lines of one statement -/

/-- The bounds of `j` contain `i`. -/
def Contains (lines : List Text) (j i : Int) : Prop :=
  ∃ s e : Nat, statementBounds lines j = some (s, e) ∧ (s : Int) ≤ i ∧ i ≤ e

/-- Two lines are equal, or the bounds of one contain the other. -/
def SameStatement (lines : List Text) (i j : Int) : Prop := i = j ∨ Contains lines j i

theorem Contains.symm {lines : List Text} {i j : Int} (h : Contains lines j i) :
    Contains lines i j := by
  obtain ⟨s, e, hj, hs, he⟩ := h
  exact ⟨s, e, statementBounds_of_mem hj hs he, mem_of_statementBounds hj⟩

theorem Contains.trans {lines : List Text} {i j k : Int} (h : Contains lines j i)
    (h' : Contains lines k j) : Contains lines k i := by
  obtain ⟨s, e, hj, hs, he⟩ := h
  obtain ⟨s', e', hk, hs', he'⟩ := h'
  -- `j` has the bounds of `k`
  have hsame := (statementBounds_of_mem hk hs' he').symm.trans hj
  obtain ⟨rfl, rfl⟩ := Prod.mk.inj (Option.some.inj hsame)
  exact ⟨s', e', hk, hs, he⟩

theorem sameStatement_equivalence (lines : List Text) : Equivalence (SameStatement lines) where
  refl _ := .inl rfl
  symm h := h.imp Eq.symm Contains.symm
  trans h h' := by
    rcases h with rfl | h
    · exact h'
    · rcases h' with rfl | h'
      · exact .inr h
      · exact .inr (h.trans h')

/-- The verdict: two lines of one statement that differ. -/
theorem sameExpressionMatch_iff {readLines : Text → Option (List Text)} {file : Text}
    {expectedLine actualLine : Int} :
    sameExpressionMatch readLines file expectedLine actualLine = true ↔
      ∃ lines, readLines file = some lines ∧ expectedLine ≠ actualLine ∧
        Contains lines actualLine expectedLine := by
  rw [sameExpressionMatch]
  by_cases hguard : expectedLine ≤ 0 ∨ actualLine ≤ 0 ∨ expectedLine = actualLine
  · rw [if_pos hguard]
    constructor
    · rintro ⟨⟩
    · rintro ⟨lines, -, hne, s, e, hbounds, hs, he⟩
      -- a span starts at line one or later
      obtain ⟨hpos, -, -, hfirst, -⟩ := statementBounds_eq_some_iff.mp hbounds
      have hone := hfirst.bound_le
      omega
  · rw [if_neg hguard]
    have hne : expectedLine ≠ actualLine := fun heq => hguard (.inr (.inr heq))
    cases hread : readLines file with
    | none => simp
    | some lines =>
      cases hbounds : statementBounds lines actualLine with
      | none => simp [Contains, hbounds]
      | some bounds =>
        obtain ⟨start, stop⟩ := bounds
        simp [Contains, hbounds, hne]

/-- The lines of one statement are an interval. -/
theorem sameStatement_interval (lines : List Text) (j : Int) :
    ∃ first last : Int, ∀ i, SameStatement lines i j ↔ first ≤ i ∧ i ≤ last := by
  cases hbounds : statementBounds lines j with
  | none =>
    refine ⟨j, j, fun i => ⟨?_, fun ⟨hfirst, hlast⟩ => .inl (by omega)⟩⟩
    rintro (rfl | ⟨s, e, hsome, -⟩)
    · exact ⟨Int.le_refl _, Int.le_refl _⟩
    · rw [hbounds] at hsome
      cases hsome
  | some bounds =>
    obtain ⟨s, e⟩ := bounds
    refine ⟨s, e, fun i => ⟨?_, fun ⟨hs, he⟩ => .inr ⟨s, e, hbounds, hs, he⟩⟩⟩
    rintro (rfl | ⟨s', e', hsome, hs, he⟩)
    · exact mem_of_statementBounds hbounds
    · obtain ⟨rfl, rfl⟩ := Prod.mk.inj (Option.some.inj (hbounds.symm.trans hsome))
      exact ⟨hs, he⟩

theorem sameExpressionMatch_symm {readLines : Text → Option (List Text)} {file : Text}
    {a b : Int} (h : sameExpressionMatch readLines file a b = true) :
    sameExpressionMatch readLines file b a = true := by
  obtain ⟨lines, hread, hne, hcontains⟩ := sameExpressionMatch_iff.mp h
  exact sameExpressionMatch_iff.mpr ⟨lines, hread, hne.symm, hcontains.symm⟩

theorem sameExpressionMatch_trans {readLines : Text → Option (List Text)} {file : Text}
    {a b c : Int} (hab : sameExpressionMatch readLines file a b = true)
    (hbc : sameExpressionMatch readLines file b c = true) (hac : a ≠ c) :
    sameExpressionMatch readLines file a c = true := by
  obtain ⟨lines, hread, -, hcontains⟩ := sameExpressionMatch_iff.mp hab
  obtain ⟨lines', hread', -, hcontains'⟩ := sameExpressionMatch_iff.mp hbc
  obtain rfl := Option.some.inj (hread.symm.trans hread')
  exact sameExpressionMatch_iff.mpr ⟨lines, hread, hac, hcontains.trans hcontains'⟩

/-- **Statement spans partition the lines.** To be equal or in the bounds of the other line is an
equivalence, its classes are intervals, all lines of a span have its bounds, and the
same-expression verdict is symmetric and transitive between lines that differ. -/
theorem statement_spans (lines : List Text) :
    Equivalence (SameStatement lines) ∧
      (∀ j, ∃ first last : Int, ∀ i, SameStatement lines i j ↔ first ≤ i ∧ i ≤ last) ∧
      (∀ (j : Int) (s e : Nat), statementBounds lines j = some (s, e) →
        (s : Int) ≤ j ∧ j ≤ e ∧
          ∀ k : Int, (s : Int) ≤ k → k ≤ e → statementBounds lines k = some (s, e)) ∧
      ∀ (readLines : Text → Option (List Text)) (file : Text),
        (∀ a b, sameExpressionMatch readLines file a b = sameExpressionMatch readLines file b a) ∧
          ∀ a b c, sameExpressionMatch readLines file a b = true →
            sameExpressionMatch readLines file b c = true → a ≠ c →
            sameExpressionMatch readLines file a c = true := by
  refine ⟨sameStatement_equivalence lines, sameStatement_interval lines, fun j s e hbounds => ?_,
    fun readLines file => ⟨fun a b => ?_, fun a b c => sameExpressionMatch_trans⟩⟩
  · obtain ⟨hs, he⟩ := mem_of_statementBounds hbounds
    exact ⟨hs, he, fun k hs he => statementBounds_of_mem hbounds hs he⟩
  · exact Bool.eq_iff_iff.mpr ⟨sameExpressionMatch_symm, sameExpressionMatch_symm⟩

/-- A statement on two lines. -/
theorem statement_spans_twoLines :
    let lines := ["x = a +".toList, "    b;".toList]
    statementBounds lines 1 = some (1, 2) ∧ statementBounds lines 2 = some (1, 2) := by
  intro lines
  have hends : endsScan ['x', ' ', '=', ' ', 'a', ' ', '+'] = false := by decide
  have hbounds : statementBounds lines 1 = some (1, 2) := by
    simp [statementBounds, lines, scanUp, scanDown, hends]
  obtain ⟨-, -, hspan, -⟩ := statement_spans lines
  exact ⟨hbounds, (hspan 1 1 2 hbounds).2.2 2 (by decide) (by decide)⟩

/-- The verdict is not transitive: each of the two lines matches the other, none itself. -/
theorem sameExpressionMatch_not_transitive :
    ¬∀ (readLines : Text → Option (List Text)) (file : Text) (a b c : Int),
      sameExpressionMatch readLines file a b = true →
        sameExpressionMatch readLines file b c = true →
        sameExpressionMatch readLines file a c = true := by
  intro h
  let readLines : Text → Option (List Text) := fun _ => some ["x = a +".toList, "    b;".toList]
  have hends : endsScan ['x', ' ', '=', ' ', 'a', ' ', '+'] = false := by decide
  have hdown : sameExpressionMatch readLines "a.c".toList 1 2 = true := by
    simp [sameExpressionMatch, readLines, statementBounds, scanUp, scanDown, hends]
  have hself := h readLines "a.c".toList 1 2 1 hdown (sameExpressionMatch_symm hdown)
  have hguard : sameExpressionMatch readLines "a.c".toList 1 1 = false := rfl
  exact absurd (hself.symm.trans hguard) (by decide)

end KleeDeps.Replay

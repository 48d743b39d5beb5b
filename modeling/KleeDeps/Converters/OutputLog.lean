import Mathlib.Data.Rat.Defs
import KleeDeps.Py.Dict
import KleeDeps.Py.Int
import KleeDeps.Py.Regex

/-!
# Reading a BINSEC worker log

`parse_output_log` collects the `[checkct:result]` lines of a worker log into a
dictionary from addresses to leaks; a later line for the same address wins. The
seconds go through `float`, which is rounding here (`round`) after the exact
reading of the digits, and raises on a text such as `1.2.3`, which the pattern
lets through.

- `parseOutputLog`: the function, on the bytes of the file as decoded text;
- `results`: the leaks of some lines, in order, or the first exception;
- `parseLines_eq`: the loop assigns exactly `results`;
- `SameLeaks`: dictionaries that answer every lookup alike.
-/

namespace KleeDeps.Converters

open Py Regex

/-- `LeakInfo.leak_type`. -/
inductive LeakType where
  | controlFlow
  | memoryAccess
  deriving DecidableEq, Repr

/-- `LeakInfo`. -/
structure LeakInfo (F : Type) where
  leakType : LeakType
  seconds : F
  deriving DecidableEq, Repr

/-! ## The parser (`binsec_toml_to_json.py`) -/

/-- `_CHECKCT_RE`. -/
def checkctRe : Regex :=
  .seq (.lit "[checkct:result] Instruction ".toList) <|
  .seq (.group "addr".toList (.seq (.lit "0x".toList) (.many isHexDigit 1 true))) <|
  .seq (.lit " has ".toList) <|
  .seq (.group "kind".toList
    (.alt (.lit "control flow".toList) (.lit "memory access".toList))) <|
  .seq (.lit " leak (".toList) <|
  .seq (.group "secs".toList (.many (fun c => isDecDigit c || c == '.') 1 true)) <|
  .seq (.lit "s)".toList) <| .seq (.many isSpace 0 true) .atEnd

/-- The number a text of digits and points denotes, if it is one: at most one
point, at least one digit. -/
def decimalValue? (s : Text) : Option ℚ :=
  (digitsOf 10 ((split1 '.' s).1 ++ (split1 '.' s).2)).map fun ds =>
    (ofDigits 10 ds : ℚ) / 10 ^ (split1 '.' s).2.length

section Parser

variable {F : Type} (round : ℚ → F)

/-- `float(text)` on a text the pattern captures. -/
def float (s : Text) : Except Exc F :=
  match decimalValue? s with
  | some q => .ok (round q)
  | none => .error (.valueError ("could not convert string to float: '".toList ++ s ++ ['\'']))

/-- The assignment of a match. -/
def leakOfMatch (m : Captures) : Except Exc (Int × LeakInfo F) :=
  match int16 ((get m "addr".toList).getD []) with
  | .error e => .error e.exc
  | .ok addr =>
    match float round ((get m "secs".toList).getD []) with
    | .error e => .error e
    | .ok seconds =>
      .ok (addr, { leakType := if get m "kind".toList = some "control flow".toList
                    then .controlFlow else .memoryAccess, seconds := seconds })

/-- What a line of the log assigns, if it is a result line. -/
def resultLine (line : Text) : Option (Except Exc (Int × LeakInfo F)) :=
  (match? checkctRe (strip (line.rdropWhile (· = '\n')))).map (leakOfMatch round)

/-- The loop of `parse_output_log`. -/
def parseLines (leaks : Dict Int (LeakInfo F)) :
    List Text → Except Exc (Dict Int (LeakInfo F))
  | [] => .ok leaks
  | line :: rest =>
    match resultLine round line with
    | none => parseLines leaks rest
    | some (.error e) => .error e
    | some (.ok (addr, leak)) => parseLines (leaks.set addr leak) rest

/-- `parse_output_log` on the decoded content of the log. -/
def parseOutputLog (content : Text) : Except Exc (Dict Int (LeakInfo F)) :=
  parseLines round .empty (readlines (universalNewlines content))

/-! ## The leaks of some lines -/

/-- The leaks of result lines in order, or the first exception. -/
def results : List Text → Except Exc (List (Int × LeakInfo F))
  | [] => .ok []
  | line :: rest =>
    match resultLine round line with
    | none => results rest
    | some (.error e) => .error e
    | some (.ok leak) => (results rest).map (leak :: ·)

/-- The leaks of some lines as the dictionary `parse_output_log` would return. -/
def leaksOf (lines : List Text) : Except Exc (Dict Int (LeakInfo F)) :=
  (results round lines).map (Dict.setAll .empty)

theorem parseLines_eq (leaks : Dict Int (LeakInfo F)) (lines : List Text) :
    parseLines round leaks lines = (results round lines).map leaks.setAll := by
  induction lines generalizing leaks with
  | nil => rfl
  | cons line rest ih =>
    rw [parseLines, results]
    match resultLine round line with
    | none => exact ih leaks
    | some (.error e) => rfl
    | some (.ok (addr, leak)) =>
      show parseLines round (leaks.set addr leak) rest = _
      rw [ih]
      cases results round rest <;> rfl

/-- The newline of a line does not matter. -/
theorem resultLine_newline (line : Text) :
    resultLine round (line ++ ['\n']) = resultLine round line := by
  rw [resultLine, resultLine, List.rdropWhile_concat_pos _ _ _ (by simp)]

theorem results_newline (lines : List Text) :
    results round (lines.map (· ++ ['\n'])) = results round lines := by
  induction lines with
  | nil => rfl
  | cons line rest ih => rw [List.map_cons, results, results, resultLine_newline, ih]

theorem results_append (xs ys : List Text) :
    results round (xs ++ ys) = match results round xs with
      | .error e => .error e
      | .ok before => (results round ys).map (before ++ ·) := by
  induction xs with
  | nil =>
    show results round ys = (results round ys).map _
    cases results round ys <;> rfl
  | cons line rest ih =>
    rw [List.cons_append, results, results]
    match resultLine round line with
    | none => exact ih
    | some (.error e) => rfl
    | some (.ok leak) =>
      simp only [ih]
      cases results round rest with
      | error e => rfl
      | ok before => cases results round ys <;> rfl

/-- Lines that are no result lines contribute nothing. -/
theorem results_of_forall_none {lines : List Text}
    (h : ∀ l ∈ lines, resultLine round l = none) : results round lines = .ok [] := by
  induction lines with
  | nil => rfl
  | cons line rest ih =>
    rw [results, h line (by simp)]
    exact ih fun l hl => h l (by simp [hl])

/-- The only exception a result line raises is a `ValueError`. -/
theorem valueError_of_resultLine {line : Text} {e : Exc}
    (h : resultLine round line = some (.error e)) : ∃ msg, e = .valueError msg := by
  obtain ⟨m, -, hm⟩ := Option.map_eq_some_iff.mp h
  unfold leakOfMatch at hm
  split at hm
  · next err _ =>
    obtain rfl := Except.error.inj hm
    cases err with
    | invalid => exact ⟨_, rfl⟩
    | exceedsLimit => exact ⟨_, rfl⟩
  · split at hm
    · next err hfloat =>
      obtain rfl := Except.error.inj hm
      unfold float at hfloat
      split at hfloat
      · cases hfloat
      · exact ⟨_, (Except.error.inj hfloat).symm⟩
    · cases hm

theorem valueError_of_results {lines : List Text} {e : Exc}
    (h : results round lines = .error e) : ∃ msg, e = .valueError msg := by
  induction lines with
  | nil => cases h
  | cons line rest ih =>
    rw [results] at h
    match hline : resultLine round line with
    | none =>
      rw [hline] at h
      exact ih h
    | some (.error err) =>
      rw [hline] at h
      obtain rfl := Except.error.inj h
      exact valueError_of_resultLine round hline
    | some (.ok leak) =>
      rw [hline] at h
      cases hrest : results round rest with
      | error err =>
        simp only [hrest, Except.map] at h
        exact ih (hrest.trans h)
      | ok leaks =>
        simp only [hrest, Except.map] at h
        cases h

/-- The log of some printed lines is read as the leaks of these lines. -/
theorem parseOutputLog_unlines {lines : List Text} (h : ∀ l ∈ lines, '\n' ∉ l ∧ '\r' ∉ l) :
    parseOutputLog round (unlines lines) = leaksOf round lines := by
  have hr : '\r' ∉ unlines lines := by
    simp only [unlines, List.mem_flatMap, List.mem_append, List.mem_singleton, not_exists, not_and,
      not_or]
    exact fun l hl => ⟨(h l hl).2, by decide⟩
  rw [parseOutputLog, universalNewlines_of_notMem hr, readlines_unlines fun l hl => (h l hl).1,
    parseLines_eq, results_newline, leaksOf]

end Parser

/-! ## Equal leaks -/

/-- Two outcomes of the parser are the same: the same exception, or dictionaries
with the same answer for every address. -/
def SameLeaks {F : Type} :
    Except Exc (Dict Int (LeakInfo F)) → Except Exc (Dict Int (LeakInfo F)) → Prop
  | .ok d, .ok d' => ∀ addr, d.get? addr = d'.get? addr
  | .error e, .error e' => e = e'
  | _, _ => False

/-- Lines that repeat what others recorded: readable, and for every address the
last one says what the last recorded one says. -/
def Repeats {F : Type} (round : ℚ → F) (recorded more : List Text) : Prop :=
  ∃ before after, results round recorded = .ok before ∧ results round more = .ok after ∧
    ∀ addr leak, Dict.lookup addr after.reverse = some leak →
      Dict.lookup addr before.reverse = some leak

/-- **When more lines make no difference**: the recorded ones already raise, or
the others repeat them. -/
theorem sameLeaks_append_iff {F : Type} (round : ℚ → F) (recorded more : List Text) :
    SameLeaks (leaksOf round recorded) (leaksOf round (recorded ++ more)) ↔
      (∃ e, results round recorded = .error e) ∨ Repeats round recorded more := by
  unfold leaksOf
  rw [results_append]
  cases hr : results round recorded with
  | error e => exact iff_of_true rfl (Or.inl ⟨e, rfl⟩)
  | ok before =>
    cases hm : results round more with
    | error e =>
      refine iff_of_false (fun h => h) ?_
      rintro (⟨x, hx⟩ | ⟨b, a, hb, ha, -⟩)
      · cases hx
      · rw [hm] at ha
        cases ha
    | ok after =>
      -- the dictionary keeps the last entry of an address, so the later log wins where it has one
      have hget : ∀ addr, (Dict.empty.setAll (before ++ after)).get? addr =
          (Dict.lookup addr after.reverse).or (Dict.lookup addr before.reverse) := by
        intro addr
        rw [Dict.setAll_append, Dict.get?_setAll, Dict.get?_setAll, Dict.get?_empty,
          Option.or_none]
      have hget' : ∀ addr, ((Dict.empty : Dict Int (LeakInfo F)).setAll before).get? addr =
          Dict.lookup addr before.reverse := by
        intro addr
        rw [Dict.get?_setAll, Dict.get?_empty, Option.or_none]
      show (∀ addr, (Dict.empty.setAll before).get? addr =
        (Dict.empty.setAll (before ++ after)).get? addr) ↔ _
      constructor
      · refine fun h => Or.inr ⟨before, after, hr, hm, fun addr leak hleak => ?_⟩
        rw [← hget', h addr, hget, hleak]
        rfl
      · rintro (⟨x, hx⟩ | ⟨b, a, hb, ha, hlast⟩) addr
        · cases hx
        · obtain rfl := Except.ok.inj (hr.symm.trans hb)
          obtain rfl := Except.ok.inj (hm.symm.trans ha)
          rw [hget, hget']
          cases hl : Dict.lookup addr after.reverse with
          | none => rfl
          | some leak => exact hlast addr leak hl

end KleeDeps.Converters

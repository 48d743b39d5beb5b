import Mathlib.Data.List.DropRight

/-!
# Python text

The part of Python's `str` that scripts lean on when they move data through
files, pipes and command lines: white space, line boundaries, stripping,
splitting and joining, and reading a text file line by line. Everything is
stated over `Text`, a plain list of characters, with the Unicode tables of
the interpreter spelled out — `str.isspace` and `str.splitlines` both accept
characters far outside ASCII, and the difference matters as soon as a file
name or a log line is arbitrary.
-/

namespace Py

/-- A Python `str`. -/
abbrev Text := List Char

/-- Texts are compared character by character; found here at once. -/
instance lawfulBEqText : LawfulBEq Text := List.instLawfulBEq

/-- An exception that left a piece of modelled code. -/
inductive Exc where
  | valueError (msg : Text)
  | runtimeError (msg : Text)
  | typeError (msg : Text)
  | keyError (msg : Text)
  | osError (msg : Text)
  | overflowError (msg : Text)
  /-- `SystemExit(2)`, raised by `argparse` and by a missing tool -/
  | usageExit
  /-- `SystemExit` with a message -/
  | exit (msg : Text)
  deriving DecidableEq, Repr

/-! ## Character classes -/

/-- `str.isspace`, which is also the class `\s` of a `str` pattern. -/
def isSpace (c : Char) : Bool :=
  let n := c.toNat
  (0x09 ≤ n && n ≤ 0x0d) || (0x1c ≤ n && n ≤ 0x20) || n == 0x85 || n == 0xa0 ||
    n == 0x1680 || (0x2000 ≤ n && n ≤ 0x200a) || n == 0x2028 || n == 0x2029 ||
    n == 0x202f || n == 0x205f || n == 0x3000

/-- The characters at which `str.splitlines` ends a line. -/
def isLineBreak (c : Char) : Bool :=
  let n := c.toNat
  (0x0a ≤ n && n ≤ 0x0d) || (0x1c ≤ n && n ≤ 0x1e) || n == 0x85 ||
    n == 0x2028 || n == 0x2029

/-- Every line boundary is white space. -/
theorem isSpace_of_isLineBreak {c : Char} (h : isLineBreak c = true) : isSpace c = true := by
  simp only [isLineBreak, isSpace, Bool.or_eq_true, Bool.and_eq_true, decide_eq_true_eq,
    beq_iff_eq] at h ⊢
  omega

theorem isLineBreak_of_isSpace {c : Char} (h : isSpace c = false) : isLineBreak c = false := by
  rw [Bool.eq_false_iff]
  intro hb
  rw [isSpace_of_isLineBreak hb] at h
  cases h

/-! ## Stripping and splitting -/

/-- `s.lstrip()`. -/
def lstrip (s : Text) : Text := s.dropWhile isSpace

/-- `s.rstrip()`. -/
def rstrip (s : Text) : Text := s.rdropWhile isSpace

/-- `s.strip()`. -/
def strip (s : Text) : Text := rstrip (lstrip s)

/-- `s.split()`: the maximal runs of non-space characters. -/
def splitWs (s : Text) : List Text := (s.splitOnP isSpace).filter (fun w => !w.isEmpty)

/-- `s.split(sep, 1)` when `sep` occurs in `s`: what stands before the first
occurrence and what stands after it. -/
def split1 (sep : Char) (s : Text) : Text × Text :=
  (s.takeWhile (· ≠ sep), (s.dropWhile (· ≠ sep)).tail)

/-- `sep.join(parts)`. -/
def join (sep : Text) (parts : List Text) : Text := sep.intercalate parts

theorem lstrip_of_head {c : Char} {s : Text} (h : isSpace c = false) :
    lstrip (c :: s) = c :: s := by
  simp [lstrip, h]

theorem rstrip_concat_space {c : Char} {s : Text} (h : isSpace c = true) :
    rstrip (s ++ [c]) = rstrip s :=
  List.rdropWhile_concat_pos _ _ _ h

theorem rstrip_concat {c : Char} {s : Text} (h : isSpace c = false) :
    rstrip (s ++ [c]) = s ++ [c] :=
  List.rdropWhile_concat_neg _ _ _ (by simp [h])

/-- Text without white space is its own `strip`. -/
theorem strip_of_forall {s : Text} (h : ∀ c ∈ s, isSpace c = false) : strip s = s := by
  have hl : lstrip s = s := by
    cases s with
    | nil => rfl
    | cons c s => exact lstrip_of_head (h c (by simp))
  rw [strip, hl, rstrip, List.rdropWhile_eq_self_iff]
  intro hne
  rw [h _ (List.getLast_mem hne)]
  exact Bool.false_ne_true

/-- Text whose ends are visible is its own `strip`. -/
theorem strip_of_ends {s : Text} {c d : Char} (hc : s.head? = some c) (hd : s.getLast? = some d)
    (hcs : isSpace c = false) (hds : isSpace d = false) : strip s = s := by
  obtain ⟨s', rfl⟩ := List.head?_eq_some_iff.mp hc
  obtain ⟨t, ht⟩ := List.getLast?_eq_some_iff.mp hd
  rw [strip, lstrip_of_head hcs, ht]
  exact rstrip_concat hds

/-- The ends of what is left are visible. -/
theorem isSpace_head_strip {s : Text} {c : Char} (h : (strip s).head? = some c) :
    isSpace c = false := by
  have hprefix : strip s <+: lstrip s := List.rdropWhile_prefix isSpace _
  obtain ⟨rest, hrest⟩ := hprefix
  obtain ⟨tail, htail⟩ := List.head?_eq_some_iff.mp h
  have hhead : (lstrip s).head? = some c := by rw [← hrest, htail]; rfl
  have hne : lstrip s ≠ [] := by
    intro hnil
    rw [hnil] at hhead
    cases hhead
  have hnot := List.head_dropWhile_not isSpace hne
  rw [List.head?_eq_some_head hne] at hhead
  rw [← Option.some.inj hhead]
  exact hnot

theorem isSpace_getLast_strip {s : Text} {c : Char} (h : (strip s).getLast? = some c) :
    isSpace c = false := by
  have hne : strip s ≠ [] := by
    intro hnil
    rw [hnil] at h
    cases h
  have hnot := List.rdropWhile_last_not isSpace (lstrip s) hne
  rw [List.getLast?_eq_some_getLast hne] at h
  rw [← Option.some.inj h]
  exact Bool.eq_false_iff.mpr hnot

@[simp] theorem strip_strip (s : Text) : strip (strip s) = strip s := by
  by_cases hne : strip s = []
  · rw [hne]
    rfl
  · exact strip_of_ends (List.head?_eq_some_head hne) (List.getLast?_eq_some_getLast hne)
      (isSpace_head_strip (List.head?_eq_some_head hne))
      (isSpace_getLast_strip (List.getLast?_eq_some_getLast hne))

theorem mem_of_mem_stripped {s : Text} {c : Char} (h : c ∈ strip s) : c ∈ s :=
  (List.dropWhile_suffix isSpace).subset ((List.rdropWhile_prefix isSpace _).subset h)

/-- The pieces between the separators. -/
theorem notMem_of_mem_splitOn {s : Text} {sep c : Char} {piece : Text} (h : piece ∈ s.splitOn sep)
    (hc : c ∈ piece) : c ∈ s ∧ c ≠ sep := by
  induction s generalizing piece with
  | nil =>
    rw [List.splitOn_nil, List.mem_singleton] at h
    rw [h] at hc
    cases hc
  | cons x s ih =>
    rw [List.splitOn_cons_eq_if_modifyHead] at h
    split at h
    · rcases List.mem_cons.mp h with rfl | h
      · cases hc
      · exact (ih h hc).imp_left (List.mem_cons_of_mem _)
    · next hx =>
      obtain ⟨first, rest, hsplit⟩ := List.exists_cons_of_ne_nil (List.splitOn_ne_nil sep s)
      rw [hsplit] at h ih
      rcases List.mem_cons.mp h with rfl | h
      · rcases List.mem_cons.mp hc with rfl | hc
        · exact ⟨List.mem_cons_self, by simpa using hx⟩
        · exact (ih List.mem_cons_self hc).imp_left (List.mem_cons_of_mem _)
      · exact (ih (List.mem_cons_of_mem _ h) hc).imp_left (List.mem_cons_of_mem _)

/-- A word, a space and the rest: `split` peels the word. -/
theorem splitWs_word_space {w s : Text} {c : Char} (hw : ∀ x ∈ w, isSpace x = false)
    (hne : w ≠ []) (hc : isSpace c = true) :
    splitWs (w ++ c :: s) = w :: splitWs s := by
  unfold splitWs
  rw [List.splitOnP_append_cons_of_forall_mem hw c hc, List.filter_cons_of_pos]
  simpa using hne

/-- A single word. -/
theorem splitWs_word {w : Text} (hw : ∀ x ∈ w, isSpace x = false) (hne : w ≠ []) :
    splitWs w = [w] := by
  unfold splitWs
  rw [List.splitOnP_eq_singleton hw, List.filter_cons_of_pos (by simpa using hne)]
  rfl

theorem split1_append {sep : Char} {s t : Text} (h : sep ∉ s) :
    split1 sep (s ++ sep :: t) = (s, t) := by
  have hs : ∀ x ∈ s, (decide (x ≠ sep)) = true := by
    intro x hx
    exact decide_eq_true fun he => h (he ▸ hx)
  unfold split1
  rw [List.takeWhile_append_of_pos hs, List.dropWhile_append_of_pos hs]
  simp

/-! ## Lines of a text file -/

/-- `handle.readline()` on a handle whose unread text is `s`: the line with
its terminator, and what stays unread. At the end of the file the line is
empty. -/
def readline : Text → Text × Text
  | [] => ([], [])
  | c :: s => if c = '\n' then ([c], s) else (c :: (readline s).1, (readline s).2)

theorem readline_append (s : Text) : (readline s).1 ++ (readline s).2 = s := by
  induction s with
  | nil => rfl
  | cons c s ih =>
    unfold readline
    split
    · rfl
    · rw [List.cons_append, ih]

@[simp] theorem readline_fst_eq_nil {s : Text} : (readline s).1 = [] ↔ s = [] := by
  cases s with
  | nil => simp [readline]
  | cons c s => unfold readline; split <;> simp

/-- Reading a line makes progress. -/
theorem readline_snd_length {s : Text} (h : s ≠ []) : (readline s).2.length < s.length := by
  have happ := congrArg List.length (readline_append s)
  have hpos : 0 < (readline s).1.length :=
    List.length_pos_iff.mpr fun he => h (readline_fst_eq_nil.mp he)
  rw [List.length_append] at happ
  omega

/-- `handle.readlines()`: all lines, terminators kept. -/
def readlines : Text → List Text
  | [] => []
  | c :: s =>
    if c = '\n' then [c] :: readlines s
    else match readlines s with
      | [] => [[c]]
      | l :: ls => (c :: l) :: ls

/-- `readlines` is `readline` until the end of the file. -/
theorem readlines_of_ne {s : Text} (h : s ≠ []) :
    readlines s = (readline s).1 :: readlines (readline s).2 := by
  induction s with
  | nil => exact absurd rfl h
  | cons c s ih =>
    rw [readlines, readline]
    by_cases hc : c = '\n'
    · rw [if_pos hc, if_pos hc]
    · rw [if_neg hc, if_neg hc]
      cases s with
      | nil => rfl
      | cons d s => rw [ih (List.cons_ne_nil d s)]

/-- No line of a file is empty: even a blank one keeps its terminator. -/
theorem ne_nil_of_mem_readlines {s l : Text} (h : l ∈ readlines s) : l ≠ [] := by
  induction s generalizing l with
  | nil => exact absurd h (List.not_mem_nil)
  | cons c s ih =>
    rw [readlines] at h
    split at h
    · rcases List.mem_cons.mp h with rfl | h
      · exact List.cons_ne_nil _ _
      · exact ih h
    · cases hs : readlines s with
      | nil =>
        rw [hs] at h
        rw [List.mem_singleton.mp h]
        exact List.cons_ne_nil _ _
      | cons m ms =>
        rw [hs] at h
        rcases List.mem_cons.mp h with rfl | h
        · exact List.cons_ne_nil _ _
        · exact ih (hs ▸ List.mem_cons_of_mem _ h)

/-- A line of a file is text of the file, and has its newline at the end at most. -/
theorem exists_of_mem_readlines {s l : Text} (h : l ∈ readlines s) :
    ∃ u, (l = u ∨ l = u ++ ['\n']) ∧ '\n' ∉ u ∧ ∀ c ∈ u, c ∈ s := by
  induction s generalizing l with
  | nil => exact absurd h List.not_mem_nil
  | cons c s ih =>
    rw [readlines] at h
    split at h
    · next hc =>
      rcases List.mem_cons.mp h with rfl | h
      · exact ⟨[], .inr (by rw [hc]; rfl), List.not_mem_nil, fun d hd => absurd hd List.not_mem_nil⟩
      · obtain ⟨u, hu, hno, hsub⟩ := ih h
        exact ⟨u, hu, hno, fun d hd => List.mem_cons_of_mem c (hsub d hd)⟩
    · next hc =>
      cases hs : readlines s with
      | nil =>
        rw [hs] at h
        obtain rfl := List.mem_singleton.mp h
        refine ⟨[c], .inl rfl, fun hmem => hc (List.mem_singleton.mp hmem).symm, fun d hd => ?_⟩
        exact List.mem_cons.mpr (.inl (List.mem_singleton.mp hd))
      | cons m ms =>
        rw [hs] at h
        rcases List.mem_cons.mp h with rfl | h
        · obtain ⟨u, hu, hno, hsub⟩ := ih (hs ▸ List.mem_cons_self)
          refine ⟨c :: u, ?_, fun hmem => ?_, fun d hd => ?_⟩
          · rcases hu with rfl | rfl
            · exact .inl rfl
            · exact .inr rfl
          · rcases List.mem_cons.mp hmem with he | hmem
            · exact hc he.symm
            · exact hno hmem
          · rcases List.mem_cons.mp hd with rfl | hd
            · exact List.mem_cons_self
            · exact List.mem_cons_of_mem c (hsub d hd)
        · obtain ⟨u, hu, hno, hsub⟩ := ih (hs ▸ List.mem_cons_of_mem m h)
          exact ⟨u, hu, hno, fun d hd => List.mem_cons_of_mem c (hsub d hd)⟩

theorem readline_line {l s : Text} (h : '\n' ∉ l) :
    readline (l ++ '\n' :: s) = (l ++ ['\n'], s) := by
  induction l with
  | nil => simp [readline]
  | cons c l ih =>
    have hc : c ≠ '\n' := fun he => h (by simp [he])
    have hl : '\n' ∉ l := fun he => h (by simp [he])
    simp [readline, hc, ih hl]

/-- A terminated line comes back as the first element of `readlines`. -/
theorem readlines_line {l s : Text} (h : '\n' ∉ l) :
    readlines (l ++ '\n' :: s) = (l ++ ['\n']) :: readlines s := by
  rw [readlines_of_ne (by simp), readline_line h]

/-- `s.splitlines()`: split at every line boundary, `\r\n` counting once. -/
def splitlines : Text → List Text
  | [] => []
  | '\r' :: '\n' :: s => [] :: splitlines s
  | c :: s =>
    if isLineBreak c then [] :: splitlines s
    else match splitlines s with
      | [] => [[c]]
      | l :: ls => (c :: l) :: ls

/-- A line without boundaries before a newline is the first of `splitlines`. -/
theorem splitlines_line {l s : Text} (h : ∀ c ∈ l, isLineBreak c = false) :
    splitlines (l ++ '\n' :: s) = l :: splitlines s := by
  induction l with
  | nil => rw [List.nil_append, splitlines, if_pos (by decide)]; simp
  | cons c l ih =>
    have hc := h c (by simp)
    have hr : c ≠ '\r' := by
      rintro rfl
      exact absurd hc (by decide)
    rw [List.cons_append, splitlines, if_neg (by simp [hc]), ih fun d hd => h d (by simp [hd])]
    exact fun _ he => absurd he hr

/-- No line of `splitlines` contains a boundary. -/
theorem isLineBreak_of_mem_splitlines {s l : Text} (hl : l ∈ splitlines s) {c : Char}
    (hc : c ∈ l) : isLineBreak c = false := by
  induction s using splitlines.induct generalizing l with
  | case1 => simp [splitlines] at hl
  | case2 s ih =>
    rw [splitlines] at hl
    rcases List.mem_cons.mp hl with rfl | hl
    · simp at hc
    · exact ih hl hc
  | case3 d s hne hd ih =>
    rw [splitlines, if_pos hd] at hl
    · rcases List.mem_cons.mp hl with rfl | hl
      · simp at hc
      · exact ih hl hc
    · exact hne
  | case4 d s hne hd hnil ih =>
    rw [splitlines, if_neg hd, hnil] at hl
    · obtain rfl := List.mem_singleton.mp hl
      obtain rfl := List.mem_singleton.mp hc
      simpa using hd
    · exact hne
  | case5 d s hne hd m ms hms ih =>
    rw [splitlines, if_neg hd, hms] at hl
    · rcases List.mem_cons.mp hl with rfl | hl
      · rcases List.mem_cons.mp hc with rfl | hc
        · simpa using hd
        · exact ih (by rw [hms]; simp) hc
      · exact ih (by rw [hms]; simp [hl]) hc
    · exact hne

/-- The text a `print` loop leaves in a file: every line with its newline. -/
def unlines (ls : List Text) : Text := ls.flatMap (· ++ ['\n'])

@[simp] theorem unlines_nil : unlines [] = [] := rfl

@[simp] theorem unlines_cons (l : Text) (ls : List Text) :
    unlines (l :: ls) = l ++ '\n' :: unlines ls := by
  simp [unlines]

/-- Reading back printed lines gives the lines, each with its newline. -/
theorem readlines_unlines {ls : List Text} (h : ∀ l ∈ ls, '\n' ∉ l) :
    readlines (unlines ls) = ls.map (· ++ ['\n']) := by
  induction ls with
  | nil => rfl
  | cons l ls ih =>
    rw [unlines_cons, readlines_line (h l (by simp)), ih fun m hm => h m (by simp [hm]),
      List.map_cons]

/-- A beginning of some lines that ends where a line ends is some of the lines. -/
theorem unlines_split {ls : List Text} (h : ∀ l ∈ ls, '\n' ∉ l) {a b : Text}
    (hab : a ++ b = unlines ls) (ha : a = [] ∨ a.getLast? = some '\n') :
    ∃ k, a = unlines (ls.take k) ∧ b = unlines (ls.drop k) := by
  induction ls generalizing a with
  | nil =>
    obtain ⟨rfl, rfl⟩ := List.append_eq_nil_iff.mp hab
    exact ⟨0, rfl, rfl⟩
  | cons l ls ih =>
    rcases ha with rfl | ha
    · exact ⟨0, rfl, hab⟩
    · -- `a` ends in a newline and so covers the first line
      rw [unlines_cons] at hab
      rcases List.append_eq_append_iff.mp hab with ⟨t, ht, -⟩ | ⟨t, rfl, ht⟩
      · have hmem : '\n' ∈ a := List.mem_of_getLast? ha
        exact absurd (ht ▸ List.mem_append_left t hmem) (h l (by simp))
      · cases t with
        | nil =>
          rw [List.append_nil] at ha
          exact absurd (List.mem_of_getLast? ha) (h l (by simp))
        | cons c t =>
          obtain ⟨rfl, hrest⟩ := List.cons.inj ht
          have hlast : t = [] ∨ t.getLast? = some '\n' := by
            cases t with
            | nil => exact Or.inl rfl
            | cons d t => exact Or.inr (by simpa [List.getLast?_append] using ha)
          obtain ⟨k, hk, hk'⟩ := ih (fun x hx => h x (by simp [hx])) hrest.symm hlast
          exact ⟨k + 1, by simp [hk], by simpa using hk'⟩

/-- The newline translation of a text file opened for reading. -/
def universalNewlines : Text → Text
  | [] => []
  | '\r' :: '\n' :: s => '\n' :: universalNewlines s
  | '\r' :: s => '\n' :: universalNewlines s
  | c :: s => c :: universalNewlines s

theorem notMem_universalNewlines (s : Text) : '\r' ∉ universalNewlines s := by
  fun_induction universalNewlines s with
  | case1 => exact List.not_mem_nil
  | case2 s ih => exact List.not_mem_cons_of_ne_of_not_mem (by decide) ih
  | case3 s hne ih => exact List.not_mem_cons_of_ne_of_not_mem (by decide) ih
  | case4 c s h₁ h₂ ih => exact List.not_mem_cons_of_ne_of_not_mem (fun h => h₂ h.symm) ih

theorem universalNewlines_of_notMem {s : Text} (h : '\r' ∉ s) : universalNewlines s = s := by
  fun_induction universalNewlines s with
  | case1 => rfl
  | case2 s ih => simp at h
  | case3 s hne ih => simp at h
  | case4 c s h₁ h₂ ih => rw [ih fun hmem => h (by simp [hmem])]

end Py

import Mathlib.Data.List.Infix
import KleeDeps.Py.Text

/-!
# Backtracking regular expressions

The fragment of Python's `re` that log parsers use: literals, character
classes, greedy and lazy repetition of a class, alternatives, named groups and
tests of what follows, such as the end of the text. `matchAt` returns **all** ways to match at a
position, in the order a backtracking engine tries them, so the engine's answer is the head
of the list and a proof about it can first forget the order (`mem_matchAt_seq`
and its siblings say which matches exist at all) and then, where a greedy
repetition leaves a choice, ask which one comes first
(`exists_of_match?_many_greedy`).
-/

namespace Py

/-- A pattern. -/
inductive Regex where
  /-- the characters themselves -/
  | lit (s : Text)
  /-- at least `least` characters of a class; greedy takes more before fewer -/
  | many (p : Char → Bool) (least : Nat) (greedy : Bool)
  | seq (r t : Regex)
  | alt (r t : Regex)
  | group (name : Text) (r : Regex)
  /-- a condition on the remaining text, which stays -/
  | look (p : Text → Bool)

namespace Regex

/-- `[0-9a-fA-F]`. -/
def isHexDigit (c : Char) : Bool :=
  let n := c.toNat
  (0x30 ≤ n && n ≤ 0x39) || (0x61 ≤ n && n ≤ 0x66) || (0x41 ≤ n && n ≤ 0x46)

/-- `[0-9]`. -/
def isDecDigit (c : Char) : Bool := 0x30 ≤ c.toNat && c.toNat ≤ 0x39

/-- What the groups of a match captured. -/
abbrev Captures := List (Text × Text)

/-- How many characters a repetition may take, in the order of trial. -/
def counts (least most : Nat) (greedy : Bool) : List Nat :=
  if greedy then ((List.range (most + 1)).filter (least ≤ ·)).reverse
  else (List.range (most + 1)).filter (least ≤ ·)

/-- All matches at the start of `s` — captures and remaining text — in the order
of trial. -/
def matchAt : Regex → Text → List (Captures × Text)
  | lit w, s => if w <+: s then [([], s.drop w.length)] else []
  | many p least greedy, s =>
    (counts least (s.takeWhile p).length greedy).map fun n => ([], s.drop n)
  | seq r t, s =>
    (matchAt r s).flatMap fun m => (matchAt t m.2).map fun m' => (m.1 ++ m'.1, m'.2)
  | alt r t, s => matchAt r s ++ matchAt t s
  | group name r, s =>
    (matchAt r s).map fun m => ((name, s.take (s.length - m.2.length)) :: m.1, m.2)
  | look p, s => if p s then [([], s)] else []

/-- `$`: the end, or a final newline. -/
def atEnd : Regex := look fun s => s = [] ∨ s = ['\n']

/-- `$` under `re.MULTILINE`: the end of a line. -/
def lineEnd : Regex := look fun s => s = [] ∨ s.head? = some '\n'

/-- `\b` behind a character of the class: none of the class follows. -/
def wordEnd (isWord : Char → Bool) : Regex := look fun s => !(s.head?.any isWord)

/-- `pattern.match(s)`: the captures of the first match at the start. -/
def match? (r : Regex) (s : Text) : Option Captures := (matchAt r s).head?.map Prod.fst

/-- `pattern.search(s)`: the first match at the leftmost position that has one. -/
def search (r : Regex) : Text → Option Captures
  | [] => match? r []
  | c :: s =>
    match match? r (c :: s) with
    | some m => some m
    | none => search r s

/-- The search for a line start with a match; `start` says whether this is one. -/
def searchFrom (r : Regex) (start : Bool) : Text → Option Captures
  | [] => if start then match? r [] else none
  | c :: s =>
    match if start then match? r (c :: s) else none with
    | some m => some m
    | none => searchFrom r (c = '\n') s

/-- `re.search` with `^` under `re.MULTILINE`: the first line start with a match. -/
def searchLines (r : Regex) (s : Text) : Option Captures := searchFrom r true s

/-- `re.findall` with `^` under `re.MULTILINE`: the captures at every line start,
for a pattern that stays on its line. -/
def findLines (r : Regex) (s : Text) : List Captures :=
  ((readlines s).filterMap (match? r ·))

/-- `m.group(name)`. -/
def get (m : Captures) (name : Text) : Option Text := (m.find? fun g => g.1 = name).map Prod.snd

/-! ## Which matches there are -/

section Forms

variable {r t : Regex} {s : Text}

theorem matchAt_lit (w : Text) :
    matchAt (lit w) s = if w <+: s then [([], s.drop w.length)] else [] := rfl

theorem matchAt_many (p : Char → Bool) (least : Nat) (greedy : Bool) :
    matchAt (many p least greedy) s =
      (counts least (s.takeWhile p).length greedy).map fun n => ([], s.drop n) := rfl

theorem matchAt_seq : matchAt (seq r t) s =
    (matchAt r s).flatMap fun m => (matchAt t m.2).map fun m' => (m.1 ++ m'.1, m'.2) := rfl

theorem matchAt_group (name : Text) : matchAt (group name r) s =
    (matchAt r s).map fun m => ((name, s.take (s.length - m.2.length)) :: m.1, m.2) := rfl

theorem matchAt_look (p : Text → Bool) :
    matchAt (look p) s = if p s then [([], s)] else [] := rfl

end Forms

theorem mem_counts {least most : Nat} {greedy : Bool} {n : Nat} :
    n ∈ counts least most greedy ↔ least ≤ n ∧ n ≤ most := by
  have htried : n ∈ (List.range (most + 1)).filter (least ≤ ·) ↔ least ≤ n ∧ n ≤ most := by
    rw [List.mem_filter, List.mem_range, decide_eq_true_iff]
    omega
  unfold counts
  split
  · rw [List.mem_reverse]
    exact htried
  · exact htried

@[simp] theorem mem_matchAt_lit {w s : Text} {m : Captures × Text} :
    m ∈ matchAt (lit w) s ↔ m.1 = [] ∧ s = w ++ m.2 := by
  obtain ⟨c, rest⟩ := m
  rw [matchAt_lit]
  split
  · next h =>
    obtain ⟨t, rfl⟩ := h
    simp [eq_comm]
  · next h =>
    simp only [List.not_mem_nil, false_iff, not_and]
    rintro - rfl
    exact h ⟨rest, rfl⟩

/-- A repetition takes any long enough run of its class. -/
@[simp] theorem mem_matchAt_many {p : Char → Bool} {least : Nat} {greedy : Bool} {s : Text}
    {m : Captures × Text} :
    m ∈ matchAt (many p least greedy) s ↔
      m.1 = [] ∧ ∃ w, s = w ++ m.2 ∧ (∀ c ∈ w, p c = true) ∧ least ≤ w.length := by
  obtain ⟨c, rest⟩ := m
  simp only [matchAt_many, List.mem_map, mem_counts, Prod.mk.injEq]
  constructor
  · rintro ⟨n, ⟨hleast, hmost⟩, rfl, rfl⟩
    refine ⟨rfl, s.take n, (List.take_append_drop n s).symm, ?_, ?_⟩
    · intro x hx
      have hpre : s.take n <+: s.takeWhile p :=
        List.prefix_of_prefix_length_le (List.take_prefix n s) (List.takeWhile_prefix p)
          (by rw [List.length_take]; omega)
      exact List.mem_takeWhile_imp (hpre.subset hx)
    · have := (List.takeWhile_prefix (l := s) p).length_le
      rw [List.length_take]
      omega
  · rintro ⟨rfl, w, rfl, hw, hleast⟩
    refine ⟨w.length, ⟨hleast, ?_⟩, rfl, by simp⟩
    rw [List.takeWhile_append_of_pos hw, List.length_append]
    omega

@[simp] theorem mem_matchAt_seq {r t : Regex} {s : Text} {m : Captures × Text} :
    m ∈ matchAt (seq r t) s ↔
      ∃ m₁ ∈ matchAt r s, ∃ m₂ ∈ matchAt t m₁.2, m = (m₁.1 ++ m₂.1, m₂.2) := by
  simp only [matchAt_seq, List.mem_flatMap, List.mem_map, eq_comm]

@[simp] theorem mem_matchAt_look {p : Text → Bool} {s : Text} {m : Captures × Text} :
    m ∈ matchAt (look p) s ↔ m = ([], s) ∧ p s = true := by
  rw [matchAt_look]
  split <;> simp_all

@[simp] theorem mem_matchAt_atEnd {s : Text} {m : Captures × Text} :
    m ∈ matchAt atEnd s ↔ m = ([], s) ∧ (s = [] ∨ s = ['\n']) := by
  simp [atEnd]

@[simp] theorem mem_matchAt_lineEnd {s : Text} {m : Captures × Text} :
    m ∈ matchAt lineEnd s ↔ m = ([], s) ∧ (s = [] ∨ s.head? = some '\n') := by
  simp [lineEnd]

/-- The remaining text is a suffix. -/
theorem suffix_of_mem_matchAt {r : Regex} {s : Text} {m : Captures × Text}
    (h : m ∈ matchAt r s) : m.2 <:+ s := by
  induction r generalizing s m with
  | lit w =>
    obtain ⟨-, h⟩ := mem_matchAt_lit.mp h
    exact ⟨w, h.symm⟩
  | many p least greedy =>
    obtain ⟨-, w, hw, -, -⟩ := mem_matchAt_many.mp h
    exact ⟨w, hw.symm⟩
  | seq r t ihr iht =>
    obtain ⟨m₁, h₁, m₂, h₂, rfl⟩ := mem_matchAt_seq.mp h
    exact (iht h₂).trans (ihr h₁)
  | alt r t ihr iht =>
    rcases List.mem_append.mp h with h | h
    · exact ihr h
    · exact iht h
  | group name r ih =>
    obtain ⟨m', h', rfl⟩ := List.mem_map.mp h
    exact (ih h' : m'.2 <:+ s)
  | look p =>
    obtain ⟨rfl, -⟩ := mem_matchAt_look.mp h
    exact List.suffix_rfl

/-- A group captures the text its pattern consumed. -/
@[simp] theorem mem_matchAt_group {name : Text} {r : Regex} {s : Text} {m : Captures × Text} :
    m ∈ matchAt (group name r) s ↔
      ∃ m' ∈ matchAt r s, ∃ w, s = w ++ m'.2 ∧ m = ((name, w) :: m'.1, m'.2) := by
  simp only [matchAt_group, List.mem_map]
  constructor
  · rintro ⟨m', h', rfl⟩
    obtain ⟨w, hw⟩ := suffix_of_mem_matchAt h'
    refine ⟨m', h', w, hw.symm, ?_⟩
    rw [← hw]
    simp
  · rintro ⟨m', h', w, rfl, rfl⟩
    exact ⟨m', h', by simp⟩

/-- A group around a repetition captures the run. -/
theorem mem_matchAt_group_many {name : Text} {p : Char → Bool} {least : Nat} {greedy : Bool}
    {s : Text} {m : Captures × Text} :
    m ∈ matchAt (group name (many p least greedy)) s ↔
      ∃ w, s = w ++ m.2 ∧ m.1 = [(name, w)] ∧ (∀ c ∈ w, p c = true) ∧ least ≤ w.length := by
  rw [mem_matchAt_group]
  constructor
  · rintro ⟨m', h', w, hs, rfl⟩
    obtain ⟨hnil, w', hs', hp, hlen⟩ := mem_matchAt_many.mp h'
    obtain rfl : w = w' := List.append_cancel_right (hs.symm.trans hs')
    exact ⟨w, hs, by simp [hnil], hp, hlen⟩
  · rintro ⟨w, hs, hm, hp, hlen⟩
    refine ⟨([], m.2), mem_matchAt_many.mpr ⟨rfl, w, hs, hp, hlen⟩, w, hs, ?_⟩
    rw [← hm]

/-- Captured text is text of the subject. -/
theorem mem_of_mem_capture {r : Regex} {s : Text} {m : Captures × Text} (h : m ∈ matchAt r s)
    {name w : Text} (hw : (name, w) ∈ m.1) {c : Char} (hc : c ∈ w) : c ∈ s := by
  induction r generalizing s m with
  | lit u =>
    rw [(mem_matchAt_lit.mp h).1] at hw
    simp at hw
  | many p least greedy =>
    rw [(mem_matchAt_many.mp h).1] at hw
    simp at hw
  | seq r t ihr iht =>
    obtain ⟨m₁, h₁, m₂, h₂, rfl⟩ := mem_matchAt_seq.mp h
    rcases List.mem_append.mp hw with hw | hw
    · exact ihr h₁ hw
    · exact (suffix_of_mem_matchAt h₁).subset (iht h₂ hw)
  | alt r t ihr iht =>
    rcases List.mem_append.mp h with h | h
    · exact ihr h hw
    · exact iht h hw
  | group n r ih =>
    obtain ⟨m', h', u, rfl, rfl⟩ := mem_matchAt_group.mp h
    rcases List.mem_cons.mp hw with he | hw
    · obtain ⟨rfl, rfl⟩ := Prod.mk.inj he
      exact List.mem_append_left _ hc
    · exact ih h' hw
  | look p =>
    obtain ⟨rfl, -⟩ := mem_matchAt_look.mp h
    simp at hw

/-! ## Which match comes first -/

/-- Where there is one way to match, that is the answer. -/
theorem match?_of_unique {r : Regex} {s : Text} {c : Captures} (hex : ∃ m, m ∈ matchAt r s)
    (huniq : ∀ m ∈ matchAt r s, m.1 = c) : match? r s = some c := by
  obtain ⟨m, hm⟩ := hex
  unfold match?
  cases h : matchAt r s with
  | nil =>
    rw [h] at hm
    simp at hm
  | cons m' ms => simp [huniq m' (by rw [h]; simp)]

theorem match?_eq_none {r : Regex} {s : Text} (h : ∀ m, m ∉ matchAt r s) : match? r s = none := by
  unfold match?
  rw [List.eq_nil_iff_forall_not_mem.mpr h]
  rfl

theorem exists_mem_of_match? {r : Regex} {s : Text} {c : Captures} (h : match? r s = some c) :
    ∃ m ∈ matchAt r s, m.1 = c := by
  obtain ⟨m, hm, rfl⟩ := Option.map_eq_some_iff.mp h
  exact ⟨m, List.mem_of_mem_head? (by simp [hm]), rfl⟩

/-- A successful search matched somewhere. -/
theorem exists_mem_of_search {r : Regex} {s : Text} {c : Captures} (h : search r s = some c) :
    ∃ t, t <:+ s ∧ ∃ m ∈ matchAt r t, m.1 = c := by
  induction s with
  | nil => exact ⟨[], List.suffix_rfl, exists_mem_of_match? h⟩
  | cons a s ih =>
    rw [search] at h
    cases hm : match? r (a :: s) with
    | some c' =>
      rw [hm] at h
      obtain rfl := Option.some.inj h
      exact ⟨a :: s, List.suffix_rfl, exists_mem_of_match? hm⟩
    | none =>
      rw [hm] at h
      obtain ⟨t, ht, hmem⟩ := ih h
      exact ⟨t, ht.trans (List.suffix_cons a s), hmem⟩

/-- A search skips text at which the pattern cannot start. -/
theorem search_append {r : Regex} {u s : Text}
    (h : ∀ v, v <:+ u → v ≠ [] → match? r (v ++ s) = none) : search r (u ++ s) = search r s := by
  induction u with
  | nil => rfl
  | cons c u ih =>
    rw [List.cons_append, search, ← List.cons_append,
      h (c :: u) List.suffix_rfl (List.cons_ne_nil _ _)]
    exact ih fun v hv => h v (hv.trans (List.suffix_cons c u))

theorem search_of_match? {r : Regex} {s : Text} {c : Captures} (h : match? r s = some c) :
    search r s = some c := by
  cases s with
  | nil => exact h
  | cons a s => rw [search, h]

/-- A successful search from `pre` on matched at a line start. -/
theorem exists_mem_of_searchFrom {r : Regex} {c : Captures} {s : Text} :
    ∀ (pre : Text) {start : Bool}, (start = true → pre = [] ∨ pre.getLast? = some '\n') →
      searchFrom r start s = some c →
      ∃ u t, pre ++ s = u ++ t ∧ (u = [] ∨ u.getLast? = some '\n') ∧ ∃ m ∈ matchAt r t, m.1 = c := by
  induction s with
  | nil =>
    intro pre start hpre h
    cases start with
    | false => cases h
    | true => exact ⟨pre, [], rfl, hpre rfl, exists_mem_of_match? h⟩
  | cons x s ih =>
    intro pre start hpre h
    rw [searchFrom] at h
    split at h
    · next m hm =>
      obtain rfl := Option.some.inj h
      cases start with
      | false => cases hm
      | true => exact ⟨pre, x :: s, rfl, hpre rfl, exists_mem_of_match? hm⟩
    · obtain ⟨u, t, hs, hu, hmem⟩ := ih (pre ++ [x])
        (fun hx => Or.inr (by simp [decide_eq_true_eq.mp hx])) h
      exact ⟨u, t, by simpa using hs, hu, hmem⟩

/-- A successful multi-line search matched at a line start. -/
theorem exists_mem_of_searchLines {r : Regex} {s : Text} {c : Captures}
    (h : searchLines r s = some c) :
    ∃ pre t, s = pre ++ t ∧ (pre = [] ∨ pre.getLast? = some '\n') ∧
      ∃ m ∈ matchAt r t, m.1 = c :=
  exists_mem_of_searchFrom [] (fun _ => Or.inl rfl) h

theorem nodup_counts (least most : Nat) (greedy : Bool) : (counts least most greedy).Nodup := by
  have hrange : ((List.range (most + 1)).filter (least ≤ ·)).Nodup := List.nodup_range.filter _
  unfold counts
  split
  · exact (List.reverse_perm _).nodup_iff.mpr hrange
  · exact hrange

/-- Where only one trial succeeds, the trials are that one. -/
theorem flatMap_of_unique {ι β : Type} {f : ι → List β} {a : ι} :
    ∀ {l : List ι}, l.Nodup → a ∈ l → (∀ b ∈ l, b ≠ a → f b = []) → l.flatMap f = f a
  | [], _, ha, _ => by simp at ha
  | b :: l, hnodup, ha, h => by
    rw [List.nodup_cons] at hnodup
    rw [List.flatMap_cons]
    by_cases hb : b = a
    · subst hb
      have hl : l.flatMap f = [] := by
        rw [List.flatMap_eq_nil_iff]
        exact fun x hx => h x (by simp [hx]) fun he => hnodup.1 (he ▸ hx)
      rw [hl, List.append_nil]
    · rw [h b (by simp) hb, List.nil_append]
      rcases List.mem_cons.mp ha with he | ha
      · exact absurd he.symm hb
      · exact flatMap_of_unique hnodup.2 ha fun x hx => h x (by simp [hx])

/-- A literal that is there leaves no choice. -/
theorem matchAt_lit_seq (w s : Text) (r : Regex) :
    matchAt (seq (lit w) r) (w ++ s) = matchAt r s := by
  have hlit : matchAt (lit w) (w ++ s) = [([], s)] := by simp [matchAt_lit]
  rw [matchAt_seq, hlit]
  simp

/-- A run of a class up to a separator outside the class leaves no choice. -/
theorem matchAt_many_sep {p : Char → Bool} {least : Nat} {greedy : Bool} {w s : Text} {c : Char}
    {r : Regex} (hw : ∀ x ∈ w, p x = true) (hleast : least ≤ w.length) (hc : p c = false) :
    matchAt (seq (many p least greedy) (seq (lit [c]) r)) (w ++ c :: s) = matchAt r s := by
  have htake : (w ++ c :: s).takeWhile p = w := by
    rw [List.takeWhile_append_of_pos hw, List.takeWhile_cons_of_neg (by simp [hc]),
      List.append_nil]
  have hgo : matchAt (seq (lit [c]) r) (c :: s) = matchAt r s := matchAt_lit_seq [c] s r
  rw [matchAt_seq, matchAt_many, List.flatMap_map, htake, flatMap_of_unique (a := w.length)]
  · simp only [List.drop_left, hgo]
    simp
  · exact nodup_counts _ _ _
  · exact mem_counts.mpr ⟨hleast, Nat.le_refl _⟩
  · -- stopping earlier leaves a character of the class where the separator should be
    intro n hn hne
    have hlt : n < w.length := by
      have := (mem_counts.mp hn).2
      omega
    have hnone : matchAt (seq (lit [c]) r) ((w ++ c :: s).drop n) = [] := by
      rw [List.eq_nil_iff_forall_not_mem]
      intro m hm
      obtain ⟨m₁, h₁, -⟩ := mem_matchAt_seq.mp hm
      have heq := (mem_matchAt_lit.mp h₁).2
      rw [List.drop_append_of_le_length (Nat.le_of_lt hlt), List.drop_eq_getElem_cons hlt,
        List.cons_append] at heq
      have hpc := hw _ (List.getElem_mem hlt)
      rw [(List.cons.inj heq).1, hc] at hpc
      cases hpc
    simp [hnone]

/-- In a decreasing list of trials, the first success is not below any success. -/
theorem exists_of_head?_flatMap {β : Type} {f : Nat → List β} {n : Nat} {m : β} :
    ∀ {l : List Nat}, l.Pairwise (· > ·) → n ∈ l → f n ≠ [] → (l.flatMap f).head? = some m →
      ∃ k ∈ l, n ≤ k ∧ m ∈ f k
  | [], _, hn, _, _ => by simp at hn
  | a :: l, hl, hn, hf, h => by
    rw [List.pairwise_cons] at hl
    rw [List.flatMap_cons] at h
    by_cases ha : f a = []
    · rw [ha, List.nil_append] at h
      have hnl : n ∈ l := by
        rcases List.mem_cons.mp hn with rfl | hn
        · exact absurd ha hf
        · exact hn
      obtain ⟨k, hk, hle, hm⟩ := exists_of_head?_flatMap hl.2 hnl hf h
      exact ⟨k, List.mem_cons_of_mem _ hk, hle, hm⟩
    · refine ⟨a, by simp, ?_, ?_⟩
      · rcases List.mem_cons.mp hn with rfl | hn
        · exact Nat.le_refl _
        · exact Nat.le_of_lt (hl.1 n hn)
      · rw [List.head?_append_of_ne_nil _ ha] at h
        exact List.mem_of_mem_head? (by simp [h])

/-- If a greedy repetition may take `n` characters and go on, the first match
takes at least `n`. -/
theorem exists_of_match?_many_greedy {p : Char → Bool} {least : Nat} {t : Regex} {s : Text}
    {n : Nat} (hn : least ≤ n ∧ n ≤ (s.takeWhile p).length) (hgo : matchAt t (s.drop n) ≠ [])
    {c : Captures} (h : match? (seq (many p least true) t) s = some c) :
    ∃ k, n ≤ k ∧ k ≤ (s.takeWhile p).length ∧ ∃ m ∈ matchAt t (s.drop k), m.1 = c := by
  obtain ⟨m, hm, rfl⟩ := Option.map_eq_some_iff.mp h
  have hdesc : (counts least (s.takeWhile p).length true).Pairwise (· > ·) := by
    simp only [counts, if_true, List.pairwise_reverse]
    exact (List.pairwise_lt_range).filter _
  simp only [matchAt_seq, matchAt_many, List.flatMap_map] at hm
  obtain ⟨k, hk, hle, hmem⟩ := exists_of_head?_flatMap hdesc (mem_counts.mpr hn)
    (by simpa using hgo) hm
  simp only [List.nil_append, List.mem_map] at hmem
  obtain ⟨m', hm', rfl⟩ := hmem
  exact ⟨k, hle, (mem_counts.mp hk).2, m', hm', rfl⟩

end Regex

end Py

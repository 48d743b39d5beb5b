import Mathlib.Data.List.Forall2
import KleeDeps.Data.Sequence
import KleeDeps.Py.Int

/-!
# Comparing two replay traces

The Pin tool of `pin-tracer/replay_trace.cpp` writes one line per executed
instruction and per memory access; `reproduce_positives.py` replays a finding
twice and walks the two files in lockstep. The comparison looks at raw lines
and only parses what it reports, so its exactness rests on the tracer's line
format being injective.

- `Record`, `traceText`: what the tracer writes;
- `parseTraceLine`, `compareTraceFiles`, `classifyDivergence`: the reader, as
  the script runs it, exceptions included;
- `divergenceOf`: the comparison said in terms of event sequences;
- `compareTraceFiles_traceText`: **the reader computes `divergenceOf`** on
  everything the tracer can write;
- `compareTraceFiles_malformed`: a line it cannot parse, in the common part or
  at the first difference, is never skipped.
-/

namespace KleeDeps.Replay

open Py Sequence

/-! ## Trace events (`reproduce_positives.py`) -/

/-- The `kind` of a trace event: an executed instruction, a read, a write. -/
inductive TraceKind where
  | I
  | R
  | W
  deriving DecidableEq, Repr

/-- `TraceEvent`. -/
structure TraceEvent where
  kind : TraceKind
  ip : Int
  address : Option Int
  deriving DecidableEq, Repr

/-- `Divergence`: the first difference of two traces. -/
structure Divergence where
  index : Nat
  eventA : Option TraceEvent
  eventB : Option TraceEvent
  culpritIp : Option Int
  recentIps : List Int
  deriving DecidableEq, Repr

/-- `TRACE_LOOKBACK`. -/
def traceLookback : Nat := 64

/-- `int(part, 0)` inside the parser. -/
def parseInt (limit : Nat) (part : Text) : Except Exc Int :=
  match int0 limit part with
  | .ok n => .ok n
  | .error e => .error e.exc

/-- The exception for a line of no known shape. -/
def unrecognizedLine (rawLine : Text) : Exc :=
  .runtimeError ("Unrecognized Pin trace line: ".toList ++ rstrip rawLine)

/-- A memory event from its two number fields. -/
def parseMemoryEvent (limit : Nat) (kind : TraceKind) (ip address : Text) :
    Except Exc TraceEvent :=
  match parseInt limit ip with
  | .error e => .error e
  | .ok i =>
    match parseInt limit address with
    | .error e => .error e
    | .ok a => .ok { kind := kind, ip := i, address := some a }

/-- `parse_trace_line`. `limit` is the digit limit of the interpreter. -/
def parseTraceLine (limit : Nat) (rawLine : Text) : Except Exc TraceEvent :=
  match splitWs (strip rawLine) with
  | [k, ip] =>
    if k = ['I'] then
      match parseInt limit ip with
      | .error e => .error e
      | .ok i => .ok { kind := .I, ip := i, address := none }
    else .error (unrecognizedLine rawLine)
  | [k, ip, address] =>
    if k = ['R'] then parseMemoryEvent limit .R ip address
    else if k = ['W'] then parseMemoryEvent limit .W ip address
    else .error (unrecognizedLine rawLine)
  | _ => .error (unrecognizedLine rawLine)

/-- `parse_trace_line(raw) if raw else None`. -/
def parseUnlessEof (limit : Nat) (raw : Text) : Except Exc (Option TraceEvent) :=
  if raw = [] then .ok none
  else match parseTraceLine limit raw with
    | .ok event => .ok (some event)
    | .error e => .error e

/-- The choice of `culprit_ip` at the first difference. -/
def culpritIp (lastCommonIp : Option Int) :
    Option TraceEvent → Option TraceEvent → Option Int
  | some a, some b =>
    -- control flow: report the last shared instruction, not the first one already
    -- inside the two different paths
    if ¬ (a.kind = .I ∧ b.kind = .I ∧ a.ip ≠ b.ip) then some a.ip else lastCommonIp
  | some a, none => if a.kind ≠ .I ∨ lastCommonIp = none then some a.ip else lastCommonIp
  | none, some b => if b.kind ≠ .I ∨ lastCommonIp = none then some b.ip else lastCommonIp
  | none, none => lastCommonIp

/-- The body of `compare_trace_files` once two raw lines differ. -/
def reportDivergence (limit : Nat) (recentIps : List Int) (index : Nat) (rawA rawB : Text) :
    Except Exc (Option Divergence) :=
  match parseUnlessEof limit rawA with
  | .error e => .error e
  | .ok eventA =>
    match parseUnlessEof limit rawB with
    | .error e => .error e
    | .ok eventB =>
      .ok (some
        { index := index
          eventA := eventA
          eventB := eventB
          culpritIp := culpritIp recentIps.getLast? eventA eventB
          recentIps := recentIps })

/-- The `while True` loop of `compare_trace_files`, on the text the two handles
have not delivered yet. Equal lines are non-empty here, so each turn consumes
some of `traceA`: the loop ends on every pair of finite files. -/
def compareLoop (limit : Nat) (recentIps : List Int) (index : Nat) (traceA traceB : Text) :
    Except Exc (Option Divergence) :=
  if (readline traceA).1 = [] ∧ (readline traceB).1 = [] then .ok none
  else if (readline traceA).1 = (readline traceB).1 then
    match parseTraceLine limit (readline traceA).1 with
    | .error e => .error e
    | .ok event =>
      compareLoop limit (push traceLookback recentIps event.ip) (index + 1)
        (readline traceA).2 (readline traceB).2
  else reportDivergence limit recentIps index (readline traceA).1 (readline traceB).1
termination_by traceA.length
decreasing_by
  rename_i hboth heq
  apply readline_snd_length
  rintro rfl
  exact hboth ⟨rfl, heq ▸ rfl⟩

/-- `compare_trace_files` on the decoded content of the two files. -/
def compareTraceFiles (limit : Nat) (traceA traceB : Text) : Except Exc (Option Divergence) :=
  compareLoop limit [] 0 traceA traceB

/-- `KIND_BRANCH` and `KIND_MEMORY` of `result_schema.py`. -/
inductive DivergenceKind where
  | branch
  | memory
  deriving DecidableEq, Repr

/-- `classify_divergence`. -/
def classifyDivergence (divergence : Divergence) : DivergenceKind :=
  match divergence.eventA, divergence.eventB with
  | some a, some b =>
    if a.ip ≠ b.ip then .branch
    else if (a.kind = .R ∨ a.kind = .W) ∧ (b.kind = .R ∨ b.kind = .W) then .memory
    else .branch
  | _, _ => .branch

/-! ## The tracer (`replay_trace.cpp`) -/

/-- One analysis call of the Pin tool. Addresses are natural numbers, so both
widths of `ADDRINT` are covered. -/
inductive Record where
  | instruction (ip : Nat)
  | read (ip address : Nat)
  | write (ip address : Nat)
  deriving DecidableEq, Repr

namespace Record

/-- What `record_instruction`, `record_read` and `record_write` stream, up to
the newline. -/
def body : Record → Text
  | .instruction ip => 'I' :: ' ' :: showbaseHex ip
  | .read ip address => 'R' :: ' ' :: (showbaseHex ip ++ ' ' :: showbaseHex address)
  | .write ip address => 'W' :: ' ' :: (showbaseHex ip ++ ' ' :: showbaseHex address)

/-- The event a record stands for. -/
def event : Record → TraceEvent
  | .instruction ip => { kind := .I, ip := ip, address := none }
  | .read ip address => { kind := .R, ip := ip, address := some address }
  | .write ip address => { kind := .W, ip := ip, address := some address }

theorem event_injective : Function.Injective event := by
  intro r s h
  cases r <;> cases s <;> simp_all [event]

end Record

/-- The trace file of a run. -/
def traceText (rs : List Record) : Text := unlines (rs.map Record.body)

/-- The event sequence of a run. -/
def events (rs : List Record) : List TraceEvent := rs.map Record.event

@[simp] theorem events_append (rs ss : List Record) : events (rs ++ ss) = events rs ++ events ss :=
  List.map_append

/-! ## The line format -/

/-- Stripping a line whose ends are visible removes just its newline. -/
theorem strip_terminated {s : Text} {c d : Char} (hc : s.head? = some c)
    (hd : s.getLast? = some d) (hcs : isSpace c = false) (hds : isSpace d = false) :
    strip (s ++ ['\n']) = s := by
  have hs := strip_of_ends hc hd hcs hds
  obtain ⟨s', rfl⟩ := List.head?_eq_some_iff.mp hc
  rw [strip, lstrip_of_head hcs] at hs
  rw [strip, List.cons_append, lstrip_of_head hcs, ← List.cons_append,
    rstrip_concat_space (by decide), hs]

theorem showbaseHex_ne_nil (n : Nat) : showbaseHex n ≠ [] := by
  unfold showbaseHex
  split <;> simp

/-- The characters of a printed address are visible. -/
theorem isSpace_of_mem_showbaseHex {n : Nat} {c : Char} (hc : c ∈ showbaseHex n) :
    isSpace c = false := by
  unfold showbaseHex at hc
  split at hc
  · rw [List.mem_singleton.mp hc]
    decide
  · rcases List.mem_cons.mp hc with rfl | hc
    · decide
    rcases List.mem_cons.mp hc with rfl | hc
    · decide
    · exact (mem_toDigits_spec (by decide) (by decide) hc).1

theorem showbaseHex_getLast (n : Nat) :
    ∃ d, (showbaseHex n).getLast? = some d ∧ isSpace d = false := by
  have hne := showbaseHex_ne_nil n
  exact ⟨_, List.getLast?_eq_some_getLast hne,
    isSpace_of_mem_showbaseHex (List.getLast_mem hne)⟩

theorem parseInt_showbaseHex (limit n : Nat) : parseInt limit (showbaseHex n) = .ok (n : Int) := by
  rw [parseInt, int0_showbaseHex]

/-- A tag character and one printed address split into two words. -/
theorem splitWs_one {k : Char} (hk : isSpace k = false) (n : Nat) :
    splitWs (strip (k :: ' ' :: showbaseHex n ++ ['\n'])) = [[k], showbaseHex n] := by
  obtain ⟨d, hd, hds⟩ := showbaseHex_getLast n
  rw [strip_terminated (c := k) (d := d) rfl (by simp [List.getLast?_cons, hd]) hk hds]
  have hw := splitWs_word_space (w := [k]) (s := showbaseHex n) (c := ' ')
    (by simpa using hk) (List.cons_ne_nil _ _) (by decide)
  rw [List.singleton_append] at hw
  rw [hw, splitWs_word (fun x hx => isSpace_of_mem_showbaseHex hx) (showbaseHex_ne_nil n)]

/-- A tag character and two printed addresses split into three words. -/
theorem splitWs_two {k : Char} (hk : isSpace k = false) (m n : Nat) :
    splitWs (strip (k :: ' ' :: (showbaseHex m ++ ' ' :: showbaseHex n) ++ ['\n'])) =
      [[k], showbaseHex m, showbaseHex n] := by
  obtain ⟨d, hd, hds⟩ := showbaseHex_getLast n
  rw [strip_terminated (c := k) (d := d) rfl (by simp [List.getLast?_cons, hd]) hk hds]
  have hw := splitWs_word_space (w := [k]) (s := showbaseHex m ++ ' ' :: showbaseHex n) (c := ' ')
    (by simpa using hk) (List.cons_ne_nil _ _) (by decide)
  rw [List.singleton_append] at hw
  rw [hw, splitWs_word_space (fun x hx => isSpace_of_mem_showbaseHex hx) (showbaseHex_ne_nil m)
    (by decide), splitWs_word (fun x hx => isSpace_of_mem_showbaseHex hx) (showbaseHex_ne_nil n)]

/-- **Round trip**: the parser reads every tracer line back. -/
theorem parseTraceLine_body (limit : Nat) (r : Record) :
    parseTraceLine limit (r.body ++ ['\n']) = .ok r.event := by
  cases r with
  | instruction ip =>
    simp only [parseTraceLine, Record.body, splitWs_one (k := 'I') (by decide),
      parseInt_showbaseHex, if_true]
    rfl
  | read ip address =>
    simp only [parseTraceLine, Record.body, splitWs_two (k := 'R') (by decide),
      parseMemoryEvent, parseInt_showbaseHex, if_true]
    rfl
  | write ip address =>
    simp only [parseTraceLine, Record.body, splitWs_two (k := 'W') (by decide),
      parseMemoryEvent, parseInt_showbaseHex, if_true]
    rfl

/-- So the raw lines of two records differ exactly when the events do. -/
theorem body_injective : Function.Injective Record.body := by
  intro r s h
  have hr := parseTraceLine_body 0 r
  rw [h, parseTraceLine_body 0 s] at hr
  exact Record.event_injective (Except.ok.inj hr).symm

theorem newline_notMem_body (r : Record) : '\n' ∉ r.body := by
  have hhex : ∀ n, '\n' ∉ showbaseHex n := fun n h =>
    absurd (isSpace_of_mem_showbaseHex h) (by decide)
  cases r <;> simp [Record.body, hhex]

theorem readlines_traceText (rs : List Record) :
    readlines (traceText rs) = rs.map fun r => r.body ++ ['\n'] := by
  rw [traceText, readlines_unlines, List.map_map]
  · rfl
  · intro l hl
    obtain ⟨r, -, rfl⟩ := List.mem_map.mp hl
    exact newline_notMem_body r

/-! ## The loop over lines -/

/-- The loop of `compare_trace_files` over the lines of the two files; an
exhausted file delivers the empty line. -/
def compareLines (limit : Nat) (recentIps : List Int) (index : Nat) :
    List Text → List Text → Except Exc (Option Divergence)
  | [], [] => .ok none
  | [], b :: _ => reportDivergence limit recentIps index [] b
  | a :: _, [] => reportDivergence limit recentIps index a []
  | a :: as, b :: bs =>
    if a = b then
      match parseTraceLine limit a with
      | .error e => .error e
      | .ok event => compareLines limit (push traceLookback recentIps event.ip) (index + 1) as bs
    else reportDivergence limit recentIps index a b

theorem compareLoop_eq_compareLines (limit : Nat) (recentIps : List Int) (index : Nat)
    (traceA traceB : Text) :
    compareLoop limit recentIps index traceA traceB =
      compareLines limit recentIps index (readlines traceA) (readlines traceB) := by
  induction hn : traceA.length using Nat.strong_induction_on
    generalizing recentIps index traceA traceB with
  | _ n ih =>
    rw [compareLoop]
    by_cases hA : traceA = []
    · by_cases hB : traceB = []
      · subst hA hB
        rfl
      · -- only the first file has ended
        have hne : (readline traceB).1 ≠ [] := fun h => hB (readline_fst_eq_nil.mp h)
        subst hA
        rw [readlines_of_ne hB, if_neg (fun h => hne h.2),
          if_neg (fun h : (readline []).1 = (readline traceB).1 => hne h.symm)]
        rfl
    · have hneA : (readline traceA).1 ≠ [] := fun h => hA (readline_fst_eq_nil.mp h)
      rw [if_neg (fun h => hneA h.1), readlines_of_ne hA]
      by_cases hB : traceB = []
      · subst hB
        rw [if_neg (fun h : (readline traceA).1 = (readline []).1 => hneA h)]
        rfl
      · rw [readlines_of_ne hB, compareLines]
        by_cases hline : (readline traceA).1 = (readline traceB).1
        · rw [if_pos hline, if_pos hline]
          cases parseTraceLine limit (readline traceA).1 with
          | error e => rfl
          | ok event => exact ih _ (hn ▸ readline_snd_length hA) _ _ _ _ rfl
        · rw [if_neg hline, if_neg hline]

/-- **Step over the common part**: parsed common lines are remembered and
counted, nothing else. -/
theorem compareLines_append {limit : Nat} {p : List Text} {es : List TraceEvent}
    (hp : List.Forall₂ (fun l e => parseTraceLine limit l = .ok e) p es)
    (recentIps : List Int) (index : Nat) (as bs : List Text) :
    compareLines limit recentIps index (p ++ as) (p ++ bs) =
      compareLines limit ((es.map TraceEvent.ip).foldl (push traceLookback) recentIps)
        (index + p.length) as bs := by
  induction hp generalizing recentIps index with
  | nil => rfl
  | cons hl _ ih =>
    simp only [List.cons_append, compareLines, if_true, hl, List.map_cons, List.foldl_cons,
      List.length_cons]
    rw [ih]
    congr 1
    omega

/-- Once the next lines differ the loop reports. -/
theorem compareLines_of_head_ne {limit : Nat} {as bs : List Text}
    (h : ∀ x, as.head? = some x → bs.head? ≠ some x) (hne : as ≠ [] ∨ bs ≠ [])
    (recentIps : List Int) (index : Nat) :
    compareLines limit recentIps index as bs =
      reportDivergence limit recentIps index (as.headD []) (bs.headD []) := by
  match as, bs with
  | [], [] => simp at hne
  | [], b :: bs => rfl
  | a :: as, [] => rfl
  | a :: as, b :: bs =>
    have hab : a ≠ b := fun he => h a rfl (by rw [he]; rfl)
    rw [compareLines, if_neg hab]
    rfl

/-! ## Exactness on tracer output -/

/-- The comparison said in terms of event sequences: where they first differ,
what stands there, and the last `traceLookback` instruction pointers before. -/
def divergenceOf (as bs : List TraceEvent) : Option Divergence :=
  if as = bs then none
  else
    let common := commonPrefix as bs
    some
      { index := common.length
        eventA := as[common.length]?
        eventB := bs[common.length]?
        culpritIp := culpritIp (common.map TraceEvent.ip).getLast? as[common.length]?
          bs[common.length]?
        recentIps := (common.map TraceEvent.ip).rtake traceLookback }

/-- `divergenceOf` at an explicit first difference. -/
theorem divergenceOf_append {p s t : List TraceEvent}
    (h : ∀ x, s.head? = some x → t.head? ≠ some x) (hne : s ≠ [] ∨ t ≠ []) :
    divergenceOf (p ++ s) (p ++ t) = some
      { index := p.length
        eventA := s.head?
        eventB := t.head?
        culpritIp := culpritIp (p.map TraceEvent.ip).getLast? s.head? t.head?
        recentIps := (p.map TraceEvent.ip).rtake traceLookback } := by
  have hst : p ++ s ≠ p ++ t := by
    intro he
    have hst := List.append_cancel_left he
    subst hst
    cases s with
    | nil => simp at hne
    | cons x s => exact h x rfl rfl
  have hget : ∀ l : List TraceEvent, (p ++ l)[p.length]? = l.head? := fun l => by
    rw [List.getElem?_append_right (Nat.le_refl _), Nat.sub_self, List.head?_eq_getElem?]
  simp only [divergenceOf, if_neg hst, commonPrefix_append h, hget]

theorem parseUnlessEof_head (limit : Nat) (rs : List Record) :
    parseUnlessEof limit ((rs.map fun r => r.body ++ ['\n']).headD []) =
      .ok (events rs).head? := by
  cases rs with
  | nil => rfl
  | cons r rs =>
    have hne : r.body ++ ['\n'] ≠ [] := by simp
    simp only [List.map_cons, List.headD_cons, parseUnlessEof, if_neg hne, parseTraceLine_body]
    rfl

/-- A property of the heads of two record lists carries over along an
injective map. -/
theorem head_ne_map {β : Type} {f : Record → β} (hf : Function.Injective f) {s t : List Record}
    (h : ∀ x, s.head? = some x → t.head? ≠ some x) (y : β)
    (hs : (s.map f).head? = some y) : (t.map f).head? ≠ some y := by
  intro ht
  rw [List.head?_map] at hs ht
  obtain ⟨x, hx, rfl⟩ := Option.map_eq_some_iff.mp hs
  obtain ⟨x', hx', he⟩ := Option.map_eq_some_iff.mp ht
  exact h x hx (hf he ▸ hx')

theorem events_head_ne {s t : List Record} (h : ∀ x, s.head? = some x → t.head? ≠ some x) :
    ∀ y, (events s).head? = some y → (events t).head? ≠ some y :=
  head_ne_map Record.event_injective h

/-- **The reader computes `divergenceOf`** on everything the tracer writes. -/
theorem compareTraceFiles_traceText (limit : Nat) (rs ss : List Record) :
    compareTraceFiles limit (traceText rs) (traceText ss) =
      .ok (divergenceOf (events rs) (events ss)) := by
  obtain ⟨s, t, hr, hs, hhead⟩ := exists_common_split rs ss
  generalize commonPrefix rs ss = p at hr hs
  subst hr hs
  have hparse : List.Forall₂ (fun l e => parseTraceLine limit l = .ok e)
      (p.map fun r => r.body ++ ['\n']) (events p) := by
    rw [events, List.forall₂_map_left_iff, List.forall₂_map_right_iff]
    exact List.forall₂_same.mpr fun r _ => parseTraceLine_body limit r
  rw [compareTraceFiles, compareLoop_eq_compareLines, readlines_traceText, readlines_traceText,
    List.map_append, List.map_append, compareLines_append hparse]
  by_cases hne : s = [] ∧ t = []
  · obtain ⟨rfl, rfl⟩ := hne
    simp [compareLines, divergenceOf]
  · have hne : s ≠ [] ∨ t ≠ [] := by
      by_cases h : s = []
      · exact Or.inr fun ht => hne ⟨h, ht⟩
      · exact Or.inl h
    have hbody : Function.Injective fun r : Record => r.body ++ ['\n'] := fun r r' h =>
      body_injective (List.append_cancel_right h)
    rw [compareLines_of_head_ne (head_ne_map hbody hhead) (by simpa using hne), reportDivergence,
      parseUnlessEof_head, parseUnlessEof_head, events_append, events_append,
      divergenceOf_append (events_head_ne hhead) (by simpa [events] using hne)]
    have hq : ((events p).map TraceEvent.ip).foldl (push traceLookback) [] =
        ((events p).map TraceEvent.ip).rtake traceLookback := by
      simpa using foldl_push traceLookback [] ((events p).map TraceEvent.ip)
    rw [hq, getLast?_rtake (by decide)]
    simp [events]

/-- A report parses whichever of the two lines is there. -/
theorem parses_of_reportDivergence_ok {limit : Nat} {recentIps : List Int} {index : Nat}
    {rawA rawB : Text} {r : Option Divergence}
    (h : reportDivergence limit recentIps index rawA rawB = .ok r) :
    (rawA ≠ [] → ∃ e, parseTraceLine limit rawA = .ok e) ∧
      (rawB ≠ [] → ∃ e, parseTraceLine limit rawB = .ok e) := by
  have hparse : ∀ {raw : Text} {o : Option TraceEvent}, parseUnlessEof limit raw = .ok o →
      raw ≠ [] → ∃ e, parseTraceLine limit raw = .ok e := by
    intro raw o ho hraw
    rw [parseUnlessEof, if_neg hraw] at ho
    cases hp : parseTraceLine limit raw with
    | ok e => exact ⟨e, rfl⟩
    | error e =>
      rw [hp] at ho
      cases ho
  unfold reportDivergence at h
  cases hA : parseUnlessEof limit rawA with
  | error e =>
    rw [hA] at h
    cases h
  | ok eventA =>
    cases hB : parseUnlessEof limit rawB with
    | error e =>
      rw [hA, hB] at h
      cases h
    | ok eventB => exact ⟨hparse hA, hparse hB⟩

/-- Whatever the loop returns normally, it has parsed every common line and
both lines of the first difference. -/
theorem parses_of_compareLines_ok {limit : Nat} :
    ∀ {as bs : List Text}, (∀ l ∈ as, l ≠ []) → (∀ l ∈ bs, l ≠ []) →
      ∀ {recentIps : List Int} {index : Nat} {r : Option Divergence},
      compareLines limit recentIps index as bs = .ok r →
      ∀ i ≤ (commonPrefix as bs).length, ∀ l, as[i]? = some l ∨ bs[i]? = some l →
        ∃ e, parseTraceLine limit l = .ok e
  | [], [], _, _, _, _, _, _, i, _, l, hl => by simp at hl
  | [], b :: bs, _, hb, _, _, _, h, 0, _, l, hl => by
    obtain rfl : b = l := by simpa using hl
    exact (parses_of_reportDivergence_ok h).2 (hb b (by simp))
  | [], _ :: _, _, _, _, _, _, _, i + 1, hi, _, _ => by simp [commonPrefix] at hi
  | a :: as, [], ha, _, _, _, _, h, 0, _, l, hl => by
    obtain rfl : a = l := by simpa using hl
    exact (parses_of_reportDivergence_ok h).1 (ha a (by simp))
  | _ :: _, [], _, _, _, _, _, _, i + 1, hi, _, _ => by simp [commonPrefix] at hi
  | a :: as, b :: bs, ha, hb, _, _, _, h, i, hi, l, hl => by
    rw [compareLines] at h
    rw [commonPrefix] at hi
    -- equal lines are parsed for their address; unequal ones by the report
    by_cases hab : a = b
    · subst hab
      rw [if_pos rfl] at h hi
      cases hp : parseTraceLine limit a with
      | error e =>
        rw [hp] at h
        cases h
      | ok event =>
        rw [hp] at h
        cases i with
        | zero =>
          obtain rfl : a = l := by simpa using hl
          exact ⟨event, hp⟩
        | succ i =>
          exact parses_of_compareLines_ok (fun m hm => ha m (by simp [hm]))
            (fun m hm => hb m (by simp [hm])) h i (by simpa using hi) l (by simpa using hl)
    · rw [if_neg hab] at h hi
      obtain rfl : i = 0 := by simpa using hi
      have hAB := parses_of_reportDivergence_ok h
      rcases hl with hl | hl
      · obtain rfl : a = l := by simpa using hl
        exact hAB.1 (ha a (by simp))
      · obtain rfl : b = l := by simpa using hl
        exact hAB.2 (hb b (by simp))

/-- **Nothing malformed is skipped**: a line of the common part, or one at the
first difference, that does not parse makes the comparison raise. -/
theorem compareTraceFiles_malformed {limit : Nat} {traceA traceB : Text} {i : Nat} {l : Text}
    (hi : i ≤ (commonPrefix (readlines traceA) (readlines traceB)).length)
    (hl : (readlines traceA)[i]? = some l ∨ (readlines traceB)[i]? = some l)
    (hbad : ∀ e, parseTraceLine limit l ≠ .ok e) :
    ∃ e, compareTraceFiles limit traceA traceB = .error e := by
  cases h : compareTraceFiles limit traceA traceB with
  | error e => exact ⟨e, rfl⟩
  | ok r =>
    rw [compareTraceFiles, compareLoop_eq_compareLines] at h
    obtain ⟨e, he⟩ := parses_of_compareLines_ok (fun _ hm => ne_nil_of_mem_readlines hm)
      (fun _ hm => ne_nil_of_mem_readlines hm) h i hi l hl
    exact absurd he (hbad e)

/-- What a divergence tells about two event sequences. -/
structure Divergence.Describes (d : Divergence) (as bs : List TraceEvent) : Prop where
  index_eq : d.index = (commonPrefix as bs).length
  eventA_eq : d.eventA = as[d.index]?
  eventB_eq : d.eventB = bs[d.index]?
  eventA_none : d.eventA = none ↔ as.length = d.index
  eventB_none : d.eventB = none ↔ bs.length = d.index
  recentIps_eq : d.recentIps =
    ((commonPrefix as bs).map TraceEvent.ip).rtake (min d.index traceLookback)

theorem describes_of_divergenceOf {as bs : List TraceEvent} {d : Divergence}
    (h : divergenceOf as bs = some d) : d.Describes as bs := by
  unfold divergenceOf at h
  split at h
  · cases h
  · obtain rfl := Option.some.inj h
    have hA := (commonPrefix_prefix_left as bs).length_le
    have hB := (commonPrefix_prefix_right as bs).length_le
    refine ⟨rfl, rfl, rfl, ?_, ?_, ?_⟩
    · show as[_]? = none ↔ as.length = (commonPrefix as bs).length
      rw [List.getElem?_eq_none_iff]
      omega
    · show bs[_]? = none ↔ bs.length = (commonPrefix as bs).length
      rw [List.getElem?_eq_none_iff]
      omega
    · have hlen : ((commonPrefix as bs).map TraceEvent.ip).length = (commonPrefix as bs).length :=
        List.length_map _
      have hkeep : (commonPrefix as bs).length - min (commonPrefix as bs).length traceLookback =
          (commonPrefix as bs).length - traceLookback := by omega
      show List.rtake _ _ = List.rtake _ (min (commonPrefix as bs).length traceLookback)
      rw [List.rtake, List.rtake, hlen, hkeep]

/-- **`compare_trace_files` is exact.** On tracer output it returns normally,
returns `None` exactly for equal event sequences, and otherwise describes their
first difference; on arbitrary files a malformed line it reaches raises. -/
theorem compareTraceFiles_exact (limit : Nat) :
    (∀ rs ss : List Record, ∃ r,
      compareTraceFiles limit (traceText rs) (traceText ss) = .ok r ∧
      (r = none ↔ events rs = events ss) ∧
      ∀ d, r = some d → d.Describes (events rs) (events ss)) ∧
    ∀ (traceA traceB : Text) (i : Nat) (l : Text),
      i ≤ (commonPrefix (readlines traceA) (readlines traceB)).length →
      ((readlines traceA)[i]? = some l ∨ (readlines traceB)[i]? = some l) →
      (∀ e, parseTraceLine limit l ≠ .ok e) →
      ∃ e, compareTraceFiles limit traceA traceB = .error e := by
  refine ⟨fun rs ss => ?_, fun _ _ _ _ hi hl hbad => compareTraceFiles_malformed hi hl hbad⟩
  refine ⟨_, compareTraceFiles_traceText limit rs ss, ?_, fun d hd => describes_of_divergenceOf hd⟩
  unfold divergenceOf
  split
  · next h => exact ⟨fun _ => h, fun _ => rfl⟩
  · next h => exact ⟨fun he => absurd he (by simp), fun he => absurd he h⟩

/-- A write against the next instruction after one common event, and a common
line without addresses. -/
theorem compareTraceFiles_exact_write :
    (∃ d, compareTraceFiles 4300 (traceText [.instruction 16, .write 16 1280])
        (traceText [.instruction 16, .instruction 20]) = .ok (some d) ∧ d.index = 1 ∧
        d.recentIps = [16]) ∧
      ∃ e, compareTraceFiles 4300 "I\n".toList "I\n".toList = .error e := by
  obtain ⟨hexact, hraise⟩ := compareTraceFiles_exact 4300
  constructor
  · obtain ⟨r, hr, hnone, hsome⟩ :=
      hexact [.instruction 16, .write 16 1280] [.instruction 16, .instruction 20]
    cases r with
    | none => exact absurd (hnone.mp rfl) (by decide)
    | some d =>
      have hd := hsome d rfl
      have hidx : d.index = 1 := hd.index_eq.trans (by decide)
      refine ⟨d, hr, hidx, ?_⟩
      rw [hd.recentIps_eq, hidx]
      decide
  · refine hraise _ _ 0 "I\n".toList (by decide) (Or.inl (by decide)) ?_
    intro e he
    have hbad : parseTraceLine 4300 "I\n".toList = .error (unrecognizedLine "I\n".toList) := by
      decide
    rw [hbad] at he
    cases he

end KleeDeps.Replay

import Mathlib.Data.List.Chain
import KleeDeps.Replay.Trace

/-!
# Does the verdict depend on which run is called A?

`compare_trace_files` picks one instruction as the culprit of a divergence.
The two runs are interchangeable, so the choice should not depend on their
order. It does not, except at one kind of divergence: an instruction event of
one run against a memory event of the other (a predicated instruction whose
access one run performs and the other skips). There the code takes the
instruction pointer of whichever event came from the first file.

- `Step`, `emit`: the runs of an instrumented program. Every step is an `I`
  record followed by the memory records whose predicated calls were made;
- `Attributed`: what every emitted trace satisfies (`emit_attributed`) — a
  memory record has the instruction pointer of the record right before it;
- `OrderIndependent`: same culprit, same kind, and a culprit both runs executed;
- `MixedDivergence`: the one exception;
- `orderIndependent_iff`: **the verdict is independent of the order exactly
  when the first difference is not mixed**.
-/

namespace KleeDeps.Replay

open Py Sequence

/-! ## The runs of an instrumented program -/

/-- The two kinds of memory records. -/
inductive Access where
  | read
  | write
  deriving DecidableEq, Repr

/-- One executed instruction with the memory accesses recorded for it. The
accesses are recorded by predicated calls, so a run may record fewer of them
(or none) than another run of the same instruction. -/
structure Step where
  ip : Nat
  accesses : List (Access × Nat)
  deriving DecidableEq, Repr

namespace Record

/-- The instruction pointer every record carries. -/
def ip : Record → Nat
  | .instruction ip => ip
  | .read ip _ => ip
  | .write ip _ => ip

/-- Is this an `I` record? -/
def isInstruction : Record → Bool
  | .instruction _ => true
  | _ => false

@[simp] theorem event_ip (r : Record) : r.event.ip = r.ip := by
  cases r <;> rfl

theorem event_kind (r : Record) : r.event.kind = .I ↔ r.isInstruction = true := by
  cases r <;> simp [event, isInstruction]

theorem eq_instruction {r : Record} (h : r.isInstruction = true) : r = .instruction r.ip := by
  cases r <;> simp_all [isInstruction, ip]

end Record

/-- A memory record of an instruction. -/
def Access.record (ip : Nat) : Access × Nat → Record
  | (.read, address) => .read ip address
  | (.write, address) => .write ip address

/-- The records of one step, in the order of `instrument_instruction`. -/
def Step.records (step : Step) : List Record :=
  .instruction step.ip :: step.accesses.map (Access.record step.ip)

/-- The records of a run. -/
def emit (run : List Step) : List Record := run.flatMap Step.records

/-! ## Memory records belong to the record before them -/

/-- What two neighbouring records satisfy: a memory record continues the
instruction of its predecessor. -/
def Follows (a b : Record) : Prop := b.isInstruction = false → a.ip = b.ip

/-- A trace starts with an instruction, and memory records stay with theirs. -/
structure Attributed (rs : List Record) : Prop where
  head : ∀ r, rs.head? = some r → r.isInstruction = true
  chain : rs.IsChain Follows

theorem Step.ip_of_mem_records {step : Step} {r : Record} (h : r ∈ step.records) :
    r.ip = step.ip := by
  rcases List.mem_cons.mp h with rfl | h
  · rfl
  · obtain ⟨⟨k, address⟩, -, rfl⟩ := List.mem_map.mp h
    cases k <;> rfl

/-- **Every emitted trace is attributed**, by induction on the run: the records
of one step share their instruction pointer, and the next step starts with an
`I` record. -/
theorem emit_attributed (run : List Step) : Attributed (emit run) := by
  induction run with
  | nil => exact ⟨fun r h => by simp [emit] at h, List.IsChain.nil⟩
  | cons step run ih =>
    have hcons : emit (step :: run) = step.records ++ emit run := List.flatMap_cons
    refine ⟨fun r h => ?_, ?_⟩
    · rw [hcons] at h
      obtain rfl : Record.instruction step.ip = r := by simpa [Step.records] using h
      rfl
    · rw [hcons, List.isChain_append]
      refine ⟨?_, ih.chain, fun a _ b hb hmem => ?_⟩
      · refine List.Pairwise.isChain (List.pairwise_of_forall_mem_list fun a ha b hb _ => ?_)
        rw [Step.ip_of_mem_records ha, Step.ip_of_mem_records hb]
      · rw [ih.head b hb] at hmem
        cases hmem

/-- In an attributed trace a memory record is never first, and continues the
instruction of the last record before it. -/
theorem Attributed.ip_of_memory {p t : List Record} {r : Record} (h : Attributed (p ++ r :: t))
    (hr : r.isInstruction = false) : ∃ q, p.getLast? = some q ∧ q.ip = r.ip := by
  rcases List.eq_nil_or_concat p with rfl | ⟨p, q, rfl⟩
  · have := h.head r rfl
    rw [hr] at this
    cases this
  · refine ⟨q, by simp, ?_⟩
    have hchain := (List.isChain_append.mp h.chain).2.2
    exact hchain q (by simp) r (by simp) hr

theorem Attributed.of_append {p t : List Record} (h : Attributed (p ++ t)) : Attributed p := by
  refine ⟨fun r hr => h.head r ?_, (List.isChain_append.mp h.chain).1⟩
  obtain ⟨p', rfl⟩ := List.head?_eq_some_iff.mp hr
  rfl

/-- The last record of a non-empty attributed trace belongs to an instruction
the trace has executed. By induction from the right: a memory record passes the
question on to its predecessor. -/
theorem Attributed.executed {p : List Record} (h : Attributed p) {q : Record}
    (hq : p.getLast? = some q) : Record.instruction q.ip ∈ p := by
  induction p using List.reverseRecOn generalizing q with
  | nil => simp at hq
  | append_singleton p r ih =>
    obtain rfl : r = q := by simpa using hq
    cases hr : r.isInstruction with
    | true =>
      rw [← Record.eq_instruction hr]
      simp
    | false =>
      obtain ⟨q', hq', hip⟩ := h.ip_of_memory hr
      rw [← hip]
      exact List.mem_append_left _ (ih h.of_append hq')

/-! ## The verdict in both orders -/

/-- The verdict on two runs, in either order: the same culprit, the same kind,
and, once anything was common, a culprit that both runs executed. -/
def OrderIndependent (limit : Nat) (rs ss : List Record) : Prop :=
  ∃ d d' : Divergence,
    compareTraceFiles limit (traceText rs) (traceText ss) = .ok (some d) ∧
    compareTraceFiles limit (traceText ss) (traceText rs) = .ok (some d') ∧
    d.culpritIp = d'.culpritIp ∧ classifyDivergence d = classifyDivergence d' ∧
    (commonPrefix rs ss ≠ [] →
      ∃ ip : Nat, d.culpritIp = some (ip : Int) ∧
        Record.instruction ip ∈ rs ∧ Record.instruction ip ∈ ss)

/-- Right after the common part, an `I` record of one run stands against a
memory record of another instruction in the other run. -/
def MixedDivergence (rs ss : List Record) : Prop :=
  ∃ p a b s t, rs = p ++ a :: s ∧ ss = p ++ b :: t ∧
    a.isInstruction ≠ b.isInstruction ∧ a.ip ≠ b.ip

/-- The culprit in terms of records: `q` is the last common one. -/
def culpritOf (q a b : Option Record) : Option Int :=
  culpritIp (q.map fun r => (r.ip : Int)) (a.map Record.event) (b.map Record.event)

/-- The kind does not depend on the order of the runs. -/
theorem classifyDivergence_swap (d d' : Divergence) (hA : d.eventA = d'.eventB)
    (hB : d.eventB = d'.eventA) : classifyDivergence d = classifyDivergence d' := by
  unfold classifyDivergence
  rw [hA, hB]
  cases d'.eventA with
  | none => cases d'.eventB <;> rfl
  | some a =>
    cases d'.eventB with
    | none => rfl
    | some b =>
      by_cases hip : a.ip = b.ip
      · simp only [hip, ne_eq, not_true_eq_false, if_false, and_comm]
      · simp [hip, Ne.symm hip]

/-- The comparison at an explicit first difference. -/
theorem compareTraceFiles_append (limit : Nat) {p s t : List Record}
    (h : ∀ x, s.head? = some x → t.head? ≠ some x) (hne : s ≠ [] ∨ t ≠ []) :
    compareTraceFiles limit (traceText (p ++ s)) (traceText (p ++ t)) = .ok (some
      { index := p.length
        eventA := s.head?.map Record.event
        eventB := t.head?.map Record.event
        culpritIp := culpritOf p.getLast? s.head? t.head?
        recentIps := ((events p).map TraceEvent.ip).rtake traceLookback }) := by
  have hlast : ((events p).map TraceEvent.ip).getLast? =
      p.getLast?.map fun r => (r.ip : Int) := by
    rw [events, List.map_map, List.getLast?_map]
    congr 1
    funext r
    exact r.event_ip
  rw [compareTraceFiles_traceText, events_append, events_append,
    divergenceOf_append (events_head_ne h) (by simpa [events] using hne),
    hlast]
  simp [events, culpritOf, List.head?_map]

/-- Swapping the runs swaps the two events of the report and nothing else, so
order independence is a question about the culprit alone. -/
theorem orderIndependent_append (limit : Nat) {p s t : List Record}
    (h : ∀ x, s.head? = some x → t.head? ≠ some x) (hne : s ≠ [] ∨ t ≠ []) :
    OrderIndependent limit (p ++ s) (p ++ t) ↔
      culpritOf p.getLast? s.head? t.head? = culpritOf p.getLast? t.head? s.head? ∧
      (p ≠ [] → ∃ ip : Nat, culpritOf p.getLast? s.head? t.head? = some (ip : Int) ∧
        Record.instruction ip ∈ p ++ s ∧ Record.instruction ip ∈ p ++ t) := by
  have hAB := compareTraceFiles_append limit (p := p) h hne
  have hBA := compareTraceFiles_append limit (p := p) (s := t) (t := s)
    (fun x hx hy => h x hy hx) hne.symm
  unfold OrderIndependent
  rw [commonPrefix_append h]
  constructor
  · rintro ⟨d, d', hd, hd', hc, -, hex⟩
    rw [hAB] at hd
    rw [hBA] at hd'
    obtain rfl := Option.some.inj (Except.ok.inj hd)
    obtain rfl := Option.some.inj (Except.ok.inj hd')
    exact ⟨hc, hex⟩
  · rintro ⟨hc, hex⟩
    exact ⟨_, _, hAB, hBA, hc, classifyDivergence_swap _ _ rfl rfl, hex⟩

/-- The last common instruction was executed by both runs. -/
theorem executed_both {p s t : List Record} (h : Attributed (p ++ s)) {q : Record}
    (hq : p.getLast? = some q) :
    Record.instruction q.ip ∈ p ++ s ∧ Record.instruction q.ip ∈ p ++ t :=
  ⟨List.mem_append_left _ (h.of_append.executed hq),
    List.mem_append_left _ (h.of_append.executed hq)⟩

/-- One run has ended: the culprit is the last common instruction as soon as
the remaining event continues it or is an instruction. -/
theorem culpritOf_ended {q r : Record} (h : r.isInstruction = false → q.ip = r.ip) :
    culpritOf (some q) none (some r) = some (q.ip : Int) := by
  cases hr : r.isInstruction with
  | true =>
    have hk : r.event.kind = .I := r.event_kind.mpr hr
    simp [culpritOf, culpritIp, hk]
  | false =>
    have hk : r.event.kind ≠ .I := fun hk => by simp [r.event_kind.mp hk] at hr
    simp [culpritOf, culpritIp, hk, h hr]

/-- Both runs go on: the culprit is the last common instruction exactly when
the events are two instructions, else the instruction of the first run's event. -/
theorem culpritOf_both (q : Option Record) (a b : Record) :
    culpritOf q (some a) (some b) =
      if a.isInstruction = true ∧ b.isInstruction = true ∧ a.ip ≠ b.ip
      then q.map fun r => (r.ip : Int) else some (a.ip : Int) := by
  have hip : (a.ip : Int) ≠ b.ip ↔ a.ip ≠ b.ip := by omega
  simp only [culpritOf, culpritIp, Option.map_some, a.event_kind, b.event_kind, a.event_ip,
    b.event_ip, hip, ite_not]

/-- Outside the mixed case the culprit is the last common instruction, or, when
nothing is common, does not depend on the order. -/
theorem culpritOf_of_not_mixed {p s t : List Record} (hs : Attributed (p ++ s))
    (ht : Attributed (p ++ t)) (h : ∀ x, s.head? = some x → t.head? ≠ some x)
    (hmixed : ¬ MixedDivergence (p ++ s) (p ++ t)) :
    culpritOf p.getLast? s.head? t.head? = culpritOf p.getLast? t.head? s.head? ∧
      ∀ q, p.getLast? = some q → culpritOf p.getLast? s.head? t.head? = some (q.ip : Int) := by
  have hmem : ∀ {r : Record} {u : List Record}, Attributed (p ++ r :: u) → ∀ q,
      p.getLast? = some q → r.isInstruction = false → q.ip = r.ip := by
    intro r u hu q hq hr
    obtain ⟨q', hq', hip⟩ := hu.ip_of_memory hr
    rw [hq] at hq'
    exact Option.some.inj hq' ▸ hip
  match s, t with
  | [], [] => exact ⟨rfl, fun q hq => by rw [hq]; rfl⟩
  | [], b :: t => exact ⟨rfl, fun q hq => by rw [hq]; exact culpritOf_ended (hmem ht q hq)⟩
  | a :: s, [] => exact ⟨rfl, fun q hq => by rw [hq]; exact culpritOf_ended (hmem hs q hq)⟩
  | a :: s, b :: t =>
    have hab : a ≠ b := fun he => h a rfl (by rw [he]; rfl)
    simp only [List.head?_cons, culpritOf_both]
    by_cases hip : a.ip = b.ip
    · -- one instruction pointer: it is the culprit in both orders
      rw [if_neg fun hc => hc.2.2 hip, if_neg fun hc => hc.2.2 hip.symm, hip]
      refine ⟨rfl, fun q hq => ?_⟩
      cases ha : a.isInstruction with
      | false => rw [hmem hs q hq ha, hip]
      | true =>
        cases hb : b.isInstruction with
        | false => rw [hmem ht q hq hb]
        | true =>
          -- two equal `I` records do not differ
          rw [Record.eq_instruction ha, Record.eq_instruction hb, hip] at hab
          exact absurd rfl hab
    · -- different instruction pointers: not mixed, and not two memory records, which
      -- would both continue the last common instruction
      have hkind : a.isInstruction = b.isInstruction := by
        by_contra hk
        exact hmixed ⟨p, a, b, s, t, rfl, rfl, hk, hip⟩
      cases ha : a.isInstruction with
      | true =>
        rw [if_pos ⟨rfl, hkind ▸ ha, hip⟩, if_pos ⟨hkind ▸ ha, rfl, Ne.symm hip⟩]
        exact ⟨rfl, fun q hq => by rw [hq]; rfl⟩
      | false =>
        obtain ⟨q, hq, hqa⟩ := hs.ip_of_memory ha
        exact absurd (hqa.symm.trans (hmem ht q hq (hkind ▸ ha))) hip

/-- In the mixed case the two orders name different culprits. -/
theorem culpritOf_of_mixed {a b : Record} (q : Option Record)
    (hkind : a.isInstruction ≠ b.isInstruction) (hip : a.ip ≠ b.ip) :
    culpritOf q (some a) (some b) ≠ culpritOf q (some b) (some a) := by
  rw [culpritOf_both, culpritOf_both, if_neg fun h => hkind (h.1.trans h.2.1.symm),
    if_neg fun h => hkind (h.2.1.trans h.1.symm)]
  intro he
  exact hip (Int.ofNat.inj (Option.some.inj he))

/-- **The verdict is order independent exactly when the first difference is not
mixed**, for any two distinct runs. -/
theorem orderIndependent_iff (limit : Nat) (runA runB : List Step) (hne : emit runA ≠ emit runB) :
    OrderIndependent limit (emit runA) (emit runB) ↔
      ¬ MixedDivergence (emit runA) (emit runB) := by
  have hA := emit_attributed runA
  have hB := emit_attributed runB
  constructor
  · rintro hindep ⟨p, a, b, s, t, ha, hb, hkind, hip⟩
    have hab : ∀ x, (a :: s).head? = some x → (b :: t).head? ≠ some x := by
      rintro x hx hy
      obtain rfl : a = x := by simpa using hx
      obtain rfl : b = a := by simpa using hy
      exact hip rfl
    rw [ha, hb, orderIndependent_append limit hab (Or.inl (List.cons_ne_nil _ _))] at hindep
    exact culpritOf_of_mixed _ hkind hip hindep.1
  · intro hmixed
    obtain ⟨s, t, hs, ht, hhead⟩ := exists_common_split (emit runA) (emit runB)
    generalize commonPrefix (emit runA) (emit runB) = p at hs ht
    rw [hs] at hA hmixed hne ⊢
    rw [ht] at hB hmixed hne ⊢
    have hst : s ≠ [] ∨ t ≠ [] := by
      by_contra hnil
      simp only [ne_eq, not_or, not_not] at hnil
      exact hne (by rw [hnil.1, hnil.2])
    obtain ⟨hswap, hlast⟩ := culpritOf_of_not_mixed hA hB hhead hmixed
    rw [orderIndependent_append limit hhead hst]
    refine ⟨hswap, fun hp => ?_⟩
    have hq := List.getLast?_eq_some_getLast hp
    exact ⟨_, hlast _ hq, executed_both hA hq⟩

/-- Two runs that read different addresses in their first instruction. -/
theorem orderIndependent_iff_read :
    OrderIndependent 4300 (emit [⟨16, [(.read, 1280)]⟩]) (emit [⟨16, [(.read, 1284)]⟩]) := by
  refine (orderIndependent_iff 4300 _ _ (by decide)).mpr ?_
  rintro ⟨p, a, b, s, t, ha, hb, hkind, hip⟩
  match p, ha, hb with
  | [], ha, hb =>
    obtain ⟨rfl, -⟩ := List.cons.inj ha
    obtain ⟨rfl, -⟩ := List.cons.inj hb
    exact hip rfl
  | [_], ha, hb =>
    obtain ⟨rfl, -⟩ := List.cons.inj (List.cons.inj ha).2
    obtain ⟨rfl, -⟩ := List.cons.inj (List.cons.inj hb).2
    exact hip rfl
  | _ :: _ :: _, ha, _ => exact absurd (congrArg List.length ha) (by simp [emit, Step.records])

/-- A conditional move at `16` that reads memory in one run only, followed in
both runs by the instruction at `20`: the culprit is `16` in one order and `20`
in the other. -/
theorem culprit_depends_on_order :
    emit [⟨16, [(.read, 1280)]⟩, ⟨20, []⟩] ≠ emit [⟨16, []⟩, ⟨20, []⟩] ∧
      ¬ OrderIndependent 4300 (emit [⟨16, [(.read, 1280)]⟩, ⟨20, []⟩])
        (emit [⟨16, []⟩, ⟨20, []⟩]) := by
  refine ⟨by decide, fun h => ?_⟩
  have hsplit := (orderIndependent_append 4300 (p := [.instruction 16])
    (s := [.read 16 1280, .instruction 20]) (t := [.instruction 20])
    (by decide) (Or.inl (List.cons_ne_nil _ _))).mp h
  exact absurd hsplit.1 (by decide)

end KleeDeps.Replay

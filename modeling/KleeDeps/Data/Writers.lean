import KleeDeps.Data.FileTree
import Mathlib.Data.List.Nodup

/-!
# Processes that write apart

The operations of several processes on one tree, where no two processes reach the same path.

- `Apart`: the condition on a trace;
- `get?_run_of_only`: what stands at a path depends on the operations of its process alone;
- `same_run`: **two interleavings of the same operations leave the same files**;
- `alone`, `same_one_by_one`: the processes one after another;
- `Same.perm`: the same files are the same items, in some order.
-/

namespace FileTree

open Py

variable {ν κ π : Type} [DecidableEq ν]

/-- The same files. -/
def Same (s t : Tree ν κ) : Prop := ∀ path, s.get? path = t.get? path

theorem Same.perm {s t : Tree ν κ} (h : Same s t) : s.items.Perm t.items := by
  refine (List.perm_ext_iff_of_nodup s.nodup.of_map t.nodup.of_map).mpr fun file => ?_
  show (file.1, file.2) ∈ s.items ↔ (file.1, file.2) ∈ t.items
  rw [Dict.mem_items_iff, Dict.mem_items_iff, h file.1]

/-- What an operation leaves at a path depends on what stood there. -/
theorem get?_apply_congr {s t : Tree ν κ} {path : List ν} (h : s.get? path = t.get? path)
    (op : Op ν κ) : (op.apply s).get? path = (op.apply t).get? path := by
  cases op with
  | remove dir =>
    by_cases hprefix : dir <+: path
    · rw [Op.apply, Op.apply, get?_remove_of_prefix hprefix, get?_remove_of_prefix hprefix]
    · rw [Op.apply, Op.apply, get?_remove_of_not_prefix hprefix,
        get?_remove_of_not_prefix hprefix, h]
  | write target content =>
    rw [Op.apply, Op.apply, Dict.get?_set, Dict.get?_set, h]

section Traces

variable [DecidableEq π]

/-- The operations of a process, in their order. -/
def stepsOf (p : π) (trace : List (π × Op ν κ)) : List (π × Op ν κ) := trace.filter (·.1 = p)

/-- No two processes reach the same path. -/
def Apart (trace : List (π × Op ν κ)) : Prop :=
  ∀ a ∈ trace, ∀ b ∈ trace, a.1 ≠ b.1 → ∀ path, a.2.Reaches path → ¬ b.2.Reaches path

omit [DecidableEq ν] in
theorem mem_stepsOf {p : π} {trace : List (π × Op ν κ)} {step : π × Op ν κ} :
    step ∈ stepsOf p trace ↔ step ∈ trace ∧ step.1 = p := by
  rw [stepsOf, List.mem_filter, decide_eq_true_eq]

/-- Where only one process comes, the others can be left out. -/
theorem get?_run_of_only {p : π} {trace : List (π × Op ν κ)} {path : List ν}
    (honly : ∀ step ∈ trace, step.2.Reaches path → step.1 = p) {s t : Tree ν κ}
    (h : s.get? path = t.get? path) :
    (run trace s).get? path = (run (stepsOf p trace) t).get? path := by
  induction trace generalizing s t with
  | nil => exact h
  | cons step trace ih =>
    have hrest : ∀ other ∈ trace, other.2.Reaches path → other.1 = p := fun other hother =>
      honly other (List.mem_cons_of_mem _ hother)
    by_cases hstep : step.1 = p
    · rw [stepsOf, List.filter_cons, if_pos (decide_eq_true hstep)]
      exact ih hrest (get?_apply_congr h step.2)
    · rw [stepsOf, List.filter_cons, if_neg (by simpa using hstep)]
      have huntouched : ¬ step.2.Reaches path := fun hreach =>
        hstep (honly step List.mem_cons_self hreach)
      exact ih hrest ((get?_apply_of_untouched huntouched).trans h)

omit [DecidableEq ν] in
theorem mem_of_stepsOf {trace other : List (π × Op ν κ)}
    (hsame : ∀ p, stepsOf p trace = stepsOf p other) {step : π × Op ν κ} (h : step ∈ other) :
    step ∈ trace := by
  have hmem := mem_stepsOf.mpr ⟨h, rfl⟩
  rw [← hsame step.1] at hmem
  exact (mem_stepsOf.mp hmem).1

/-- Two interleavings of the same operations leave the same files, if no two processes reach the
same path. -/
theorem same_run {trace other : List (π × Op ν κ)} (hapart : Apart trace)
    (hsame : ∀ p, stepsOf p trace = stepsOf p other) (tree : Tree ν κ) :
    Same (run trace tree) (run other tree) := by
  intro path
  by_cases hreached : ∃ step ∈ trace, step.2.Reaches path
  · obtain ⟨step, hstep, hreach⟩ := hreached
    have honly : ∀ other ∈ trace, other.2.Reaches path → other.1 = step.1 := by
      intro other hother hreach'
      by_contra hne
      exact hapart other hother step hstep hne path hreach' hreach
    rw [get?_run_of_only honly rfl, hsame step.1, ← get?_run_of_only
      (fun other hother => honly other (mem_of_stepsOf hsame hother)) rfl]
  · have hnone : ∀ step ∈ trace, ¬ step.2.Reaches path := fun step hstep hreach =>
      hreached ⟨step, hstep, hreach⟩
    rw [get?_run_of_untouched hnone, get?_run_of_untouched fun step hstep =>
      hnone step (mem_of_stepsOf hsame hstep)]

omit [DecidableEq ν] [DecidableEq π] in
/-- Processes whose operations reach only their own paths. -/
theorem apart_of_owners {trace : List (π × Op ν κ)} {owns : π → List ν → Prop}
    (howns : ∀ step ∈ trace, ∀ path, step.2.Reaches path → owns step.1 path)
    (hone : ∀ a ∈ trace, ∀ b ∈ trace, ∀ path, owns a.1 path → owns b.1 path → a.1 = b.1) :
    Apart trace := fun a ha b hb hne path hreach hreach' =>
  hne (hone a ha b hb path (howns a ha path hreach) (howns b hb path hreach'))

end Traces

/-! ## One after another -/

/-- The tree after operations of a single process. -/
def alone (ops : List (Op ν κ)) (tree : Tree ν κ) : Tree ν κ := run (ops.map ((), ·)) tree

theorem run_eq_alone (trace : List (π × Op ν κ)) (tree : Tree ν κ) :
    run trace tree = alone (trace.map Prod.snd) tree := by
  rw [alone, run, run, List.foldl_map, List.foldl_map]

/-- The operations of processes one after another, the first one with the number `n`. -/
def oneByOne : Nat → List (List (Op ν κ)) → List (Nat × Op ν κ)
  | _, [] => []
  | n, ops :: rest => ops.map (n, ·) ++ oneByOne (n + 1) rest

omit [DecidableEq ν] in
theorem map_snd_oneByOne (n : Nat) (scripts : List (List (Op ν κ))) :
    (oneByOne n scripts).map Prod.snd = scripts.flatten := by
  induction scripts generalizing n with
  | nil => rfl
  | cons ops rest ih =>
    rw [oneByOne, List.map_append, List.map_map, ih, List.flatten_cons]
    exact congrArg (· ++ rest.flatten) (List.map_id ops)

omit [DecidableEq ν] in
theorem stepsOf_tagged (i n : Nat) (ops : List (Op ν κ)) :
    stepsOf i (ops.map (n, ·)) = if n = i then ops.map (i, ·) else [] := by
  split
  · next heq =>
    subst heq
    refine List.filter_eq_self.mpr fun step hstep => ?_
    obtain ⟨op, -, rfl⟩ := List.mem_map.mp hstep
    exact decide_eq_true rfl
  · next hne =>
    refine List.filter_eq_nil_iff.mpr fun step hstep h => ?_
    obtain ⟨op, -, rfl⟩ := List.mem_map.mp hstep
    exact hne (of_decide_eq_true h)

omit [DecidableEq ν] in
theorem stepsOf_oneByOne (i n : Nat) (scripts : List (List (Op ν κ))) :
    stepsOf i (oneByOne n scripts) =
      if n ≤ i then (scripts.getD (i - n) []).map (i, ·) else [] := by
  induction scripts generalizing n with
  | nil => simp [oneByOne, stepsOf]
  | cons ops rest ih =>
    rw [oneByOne, stepsOf, List.filter_append]
    show stepsOf i (ops.map (n, ·)) ++ stepsOf i (oneByOne (n + 1) rest) = _
    rw [stepsOf_tagged, ih]
    rcases Nat.lt_trichotomy n i with hlt | rfl | hgt
    · obtain ⟨k, rfl⟩ : ∃ k, i = n + 1 + k := ⟨i - (n + 1), by omega⟩
      rw [if_neg (by omega), if_pos (by omega), if_pos (by omega), List.nil_append,
        show n + 1 + k - (n + 1) = k by omega, show n + 1 + k - n = k + 1 by omega,
        List.getD_cons_succ]
    · rw [if_pos rfl, if_neg (by omega), if_pos (Nat.le_refl n), Nat.sub_self, List.getD_cons_zero,
        List.append_nil]
    · rw [if_neg (by omega), if_neg (by omega), if_neg (by omega), List.append_nil]

omit [DecidableEq ν] in
theorem map_snd_stepsOf {i : Nat} {trace : List (Nat × Op ν κ)} {ops : List (Op ν κ)}
    (h : (stepsOf i trace).map Prod.snd = ops) : stepsOf i trace = ops.map (i, ·) := by
  rw [← h, List.map_map]
  refine (List.map_id _).symm.trans (List.map_congr_left fun step hstep => ?_)
  obtain ⟨-, rfl⟩ := mem_stepsOf.mp hstep
  rfl

/-- Processes that are done leave the files they leave one after another. -/
theorem same_one_by_one {trace : List (Nat × Op ν κ)} (hapart : Apart trace)
    {scripts : List (List (Op ν κ))}
    (hdone : ∀ i, (stepsOf i trace).map Prod.snd = scripts.getD i []) (tree : Tree ν κ) :
    Same (run trace tree) (alone scripts.flatten tree) := by
  rw [← map_snd_oneByOne 0 scripts, ← run_eq_alone]
  refine same_run hapart (fun i => ?_) tree
  rw [stepsOf_oneByOne, if_pos (Nat.zero_le i), Nat.sub_zero]
  exact map_snd_stepsOf (hdone i)

/-- A process that is done leaves at its own paths what it leaves alone. -/
theorem get?_run_of_done {trace : List (Nat × Op ν κ)} {i : Nat} {path : List ν}
    (honly : ∀ step ∈ trace, step.2.Reaches path → step.1 = i) {ops : List (Op ν κ)}
    (hdone : (stepsOf i trace).map Prod.snd = ops) (tree : Tree ν κ) :
    (run trace tree).get? path = (alone ops tree).get? path := by
  rw [get?_run_of_only honly rfl, run_eq_alone, hdone]

end FileTree

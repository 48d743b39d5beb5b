import KleeDeps.Py.Dict

/-!
# File trees

Files by path, a path being the list of the names from the root. Directories exist as far
as there is something in them. Several processes work on one tree: a run is a list of
operations, each with the process that makes it.

- `remove`, `Op`, `run`: removing a whole directory, writing a file, and runs;
- `get?_run_cases`: a file at the end of a run was written in the run, or was there before
  and no directory above it was removed;
- `get?_run_of_untouched`: a path no operation reaches keeps its file.
-/

namespace FileTree

open Py

variable {ν κ π : Type} [DecidableEq ν]

/-- Files by path. -/
abbrev Tree (ν κ : Type) := Dict (List ν) κ

/-- The tree without everything below a directory. -/
def remove (dir : List ν) (tree : Tree ν κ) : Tree ν κ where
  items := tree.items.filter fun file => !dir.isPrefixOf file.1
  nodup := tree.nodup.sublist (List.filter_sublist.map Prod.fst)

/-- An operation on a tree. -/
inductive Op (ν κ : Type) where
  | remove (dir : List ν)
  | write (path : List ν) (content : κ)

/-- The tree after an operation. -/
def Op.apply : Op ν κ → Tree ν κ → Tree ν κ
  | .remove dir, tree => FileTree.remove dir tree
  | .write path content, tree => tree.set path content

/-- Does the operation change what stands at the path? -/
def Op.Reaches : Op ν κ → List ν → Prop
  | .remove dir, path => dir <+: path
  | .write target _, path => target = path

/-- The tree after a run of operations of several processes. -/
def run (trace : List (π × Op ν κ)) (tree : Tree ν κ) : Tree ν κ :=
  trace.foldl (fun tree step => step.2.apply tree) tree

theorem lookup_filter {p : List ν × κ → Bool} {path : List ν} {items : List (List ν × κ)}
    (hp : ∀ content, p (path, content) = true) :
    Dict.lookup path (items.filter p) = Dict.lookup path items := by
  induction items with
  | nil => rfl
  | cons item items ih =>
    obtain ⟨key, content⟩ := item
    by_cases hkey : key = path
    · subst hkey
      rw [List.filter_cons_of_pos (hp content), Dict.lookup, Dict.lookup, if_pos rfl, if_pos rfl]
    · by_cases hkeep : p (key, content) = true
      · rw [List.filter_cons_of_pos hkeep, Dict.lookup, Dict.lookup, if_neg hkey, if_neg hkey, ih]
      · rw [List.filter_cons_of_neg hkeep, Dict.lookup, if_neg hkey, ih]

theorem lookup_filter_none {p : List ν × κ → Bool} {path : List ν} {items : List (List ν × κ)}
    (hp : ∀ content, p (path, content) = false) :
    Dict.lookup path (items.filter p) = none := by
  induction items with
  | nil => rfl
  | cons item items ih =>
    obtain ⟨key, content⟩ := item
    by_cases hkeep : p (key, content) = true
    · have hkey : key ≠ path := by
        rintro rfl
        rw [hp content] at hkeep
        cases hkeep
      rw [List.filter_cons_of_pos hkeep, Dict.lookup, if_neg hkey, ih]
    · rw [List.filter_cons_of_neg hkeep, ih]

theorem get?_remove_of_prefix {dir path : List ν} (h : dir <+: path) (tree : Tree ν κ) :
    (remove dir tree).get? path = none := by
  apply lookup_filter_none
  intro content
  show (!dir.isPrefixOf path) = false
  rw [List.isPrefixOf_iff_prefix.mpr h]
  rfl

theorem get?_remove_of_not_prefix {dir path : List ν} (h : ¬ dir <+: path) (tree : Tree ν κ) :
    (remove dir tree).get? path = tree.get? path := by
  apply lookup_filter
  intro content
  show (!dir.isPrefixOf path) = true
  cases hprefix : dir.isPrefixOf path with
  | false => rfl
  | true => exact absurd (List.isPrefixOf_iff_prefix.mp hprefix) h

/-- **Step lemma**: what an operation leaves at a path. -/
theorem get?_apply_cases {op : Op ν κ} {tree : Tree ν κ} {path : List ν} {content : κ}
    (h : (op.apply tree).get? path = some content) :
    op = .write path content ∨ (tree.get? path = some content ∧ ¬ op.Reaches path) := by
  cases op with
  | remove dir =>
    right
    by_cases hprefix : dir <+: path
    · rw [Op.apply, get?_remove_of_prefix hprefix] at h
      cases h
    · rw [Op.apply, get?_remove_of_not_prefix hprefix] at h
      exact ⟨h, hprefix⟩
  | write target written =>
    rw [Op.apply, Dict.get?_set] at h
    by_cases htarget : target = path
    · rw [if_pos htarget] at h
      rw [htarget, Option.some.inj h]
      exact Or.inl rfl
    · rw [if_neg htarget] at h
      exact Or.inr ⟨h, htarget⟩

theorem get?_apply_of_untouched {op : Op ν κ} {tree : Tree ν κ} {path : List ν}
    (h : ¬ op.Reaches path) : (op.apply tree).get? path = tree.get? path := by
  cases op with
  | remove dir => exact get?_remove_of_not_prefix h tree
  | write target written =>
    rw [Op.apply, Dict.get?_set, if_neg]
    exact h

/-- **Run lemma**: a file at the end was written in the run, or was there before and no
operation reached its path. -/
theorem get?_run_cases {trace : List (π × Op ν κ)} {tree : Tree ν κ} {path : List ν} {content : κ}
    (h : (run trace tree).get? path = some content) :
    (∃ step ∈ trace, step.2 = .write path content) ∨
      (tree.get? path = some content ∧ ∀ step ∈ trace, ¬ step.2.Reaches path) := by
  induction trace generalizing tree with
  | nil => exact Or.inr ⟨h, by simp⟩
  | cons step trace ih =>
    rcases ih h with ⟨later, hmem, hlater⟩ | ⟨hbefore, hlater⟩
    · exact Or.inl ⟨later, List.mem_cons_of_mem _ hmem, hlater⟩
    · rcases get?_apply_cases hbefore with hwrite | ⟨hkept, hreach⟩
      · exact Or.inl ⟨step, by simp, hwrite⟩
      · refine Or.inr ⟨hkept, fun other hmem => ?_⟩
        rcases List.mem_cons.mp hmem with rfl | hmem
        · exact hreach
        · exact hlater other hmem

theorem get?_run_of_untouched {trace : List (π × Op ν κ)} {tree : Tree ν κ} {path : List ν}
    (h : ∀ step ∈ trace, ¬ step.2.Reaches path) :
    (run trace tree).get? path = tree.get? path := by
  induction trace generalizing tree with
  | nil => rfl
  | cons step trace ih =>
    show (run trace (step.2.apply tree)).get? path = _
    rw [ih fun other hmem => h other (List.mem_cons_of_mem _ hmem)]
    exact get?_apply_of_untouched (h step (by simp))

end FileTree

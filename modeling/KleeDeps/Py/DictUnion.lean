import KleeDeps.Data.Sequence
import KleeDeps.Py.Dict

/-!
# The union of dictionaries that agree

Items are taken into a dictionary one by one, and a key that is already there must have the same
value.

- `adjoin`, `adjoinAll`: the loop;
- `get?_adjoinAll`: what is in the union does not depend on the order of the items;
- `items_adjoinAll`: items with new keys are appended as they come.
-/

namespace Py

universe u

namespace Dict

variable {κ ν ε : Type u} [DecidableEq κ] [DecidableEq ν]

/-- An item is added, unless its key has another value. -/
def adjoin (conflict : κ → ε) (d : Dict κ ν) (item : κ × ν) : Except ε (Dict κ ν) :=
  match d.get? item.1 with
  | none => .ok (d.set item.1 item.2)
  | some existing => if existing ≠ item.2 then .error (conflict item.1) else .ok d

/-- The items are added one by one. -/
def adjoinAll (conflict : κ → ε) (d : Dict κ ν) (items : List (κ × ν)) : Except ε (Dict κ ν) :=
  items.foldlM (adjoin conflict) d

variable {conflict : κ → ε} {d d' : Dict κ ν}

theorem adjoin_ok_iff {item : κ × ν} : adjoin conflict d item = .ok d' ↔
    d.get? item.1 = some item.2 ∧ d' = d ∨ d.get? item.1 = none ∧ d' = d.set item.1 item.2 := by
  rw [adjoin]
  split
  · next hnone => simp [hnone, eq_comm]
  · next existing hexisting =>
    split
    · next hother => simp [hexisting, hother]
    · next hsame => simp [hexisting, not_not.mp hsame, eq_comm]

/-- **Step lemma**: an item is added to what is there. -/
theorem get?_adjoin {item : κ × ν} (h : adjoin conflict d item = .ok d') (k : κ) (v : ν) :
    d'.get? k = some v ↔ d.get? k = some v ∨ (k, v) = item := by
  obtain ⟨k', v'⟩ := item
  rcases adjoin_ok_iff.mp h with ⟨hsame, rfl⟩ | ⟨hnone, rfl⟩
  · refine ⟨Or.inl, ?_⟩
    rintro (hold | hnew)
    · exact hold
    · obtain ⟨rfl, rfl⟩ := Prod.mk.inj hnew
      exact hsame
  · rw [get?_set]
    split
    · next hk =>
      subst hk
      simp [hnone, eq_comm]
    · next hk => simp [Ne.symm hk]

/-- A new key goes to the end, and an old one stays where it is. -/
theorem keys_adjoin {item : κ × ν} (h : adjoin conflict d item = .ok d') :
    d'.keys = if item.1 ∈ d.keys then d.keys else d.keys ++ [item.1] := by
  rcases adjoin_ok_iff.mp h with ⟨hsame, rfl⟩ | ⟨-, rfl⟩
  · rw [if_pos (mem_keys_of_get? hsame)]
  · exact keys_insert item.1 item.2 d.items

/-- **Run lemma**: the union holds what was there and all items, in whatever order they came. -/
theorem get?_adjoinAll {items : List (κ × ν)} (h : adjoinAll conflict d items = .ok d') (k : κ)
    (v : ν) : d'.get? k = some v ↔ d.get? k = some v ∨ (k, v) ∈ items := by
  let P : List (κ × ν) → Dict κ ν → Prop := fun done d' =>
    d'.get? k = some v ↔ d.get? k = some v ∨ (k, v) ∈ done
  have hrun := Sequence.foldlM_ok_induction P h [] (by simp [P]) ?_
  · exact hrun
  · intro done item s t _ hdone hstep
    have hold : s.get? k = some v ↔ d.get? k = some v ∨ (k, v) ∈ done := hdone
    show t.get? k = some v ↔ _
    rw [get?_adjoin hstep, hold, List.mem_append, List.mem_singleton, or_assoc]

/-- Items with new keys are appended. -/
theorem items_adjoinAll {items : List (κ × ν)} (h : adjoinAll conflict d items = .ok d')
    (hnew : ((d.items ++ items).map Prod.fst).Nodup) : d'.items = d.items ++ items := by
  induction items generalizing d with
  | nil =>
    rw [List.append_nil]
    exact congrArg items (Except.ok.inj h).symm
  | cons item rest ih =>
    rw [adjoinAll, List.foldlM_cons, Sequence.bind_eq_ok_iff] at h
    obtain ⟨next, hnext, hrest⟩ := h
    have hfresh : item.1 ∉ d.keys := by
      rw [List.map_append, List.map_cons, List.nodup_append] at hnew
      exact fun hmem => hnew.2.2 item.1 hmem item.1 List.mem_cons_self rfl
    have hitems : next.items = d.items ++ [item] := by
      rcases adjoin_ok_iff.mp hnext with ⟨hsame, -⟩ | ⟨-, rfl⟩
      · exact absurd (mem_keys_of_get? hsame) hfresh
      · exact items_set_of_notMem d item.2 hfresh
    rw [ih hrest, hitems, List.append_assoc]
    · rfl
    · rwa [hitems, List.append_assoc]

end Dict

end Py

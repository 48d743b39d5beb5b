import Mathlib.Logic.Basic

/-!
# Spans between cuts

Positions in a row, with a cut behind some of them. A scan up stops at a position that has a cut
in front of it, a scan down at one that has a cut behind it; where both have passed no cut they
have found the span of the position they started from.

- `First`, `Last`: where a scan up and a scan down stop;
- `First.unique`, `Last.unique`: only one place is possible;
- `First.of_between`, `Last.of_between`: every position of a span has the same ends.
-/

namespace Spans

variable (cut : Nat → Prop)

/-- A scan from `j` up to the bound has stopped at `s`. -/
structure First (bound j s : Nat) : Prop where
  bound_le : bound ≤ s
  le : s ≤ j
  uncut : ∀ m, s ≤ m → m < j → ¬ cut m
  stop : s = bound ∨ cut (s - 1)

/-- A scan from `j` down to the bound has stopped at `e`. -/
structure Last (bound j e : Nat) : Prop where
  le_bound : e ≤ bound
  le : j ≤ e
  uncut : ∀ m, j ≤ m → m < e → ¬ cut m
  stop : e = bound ∨ cut e

variable {cut} {bound j k s s' e e' : Nat}

theorem First.unique (h : First cut bound j s) (h' : First cut bound j s') : s = s' := by
  -- the place further up would have a cut behind it
  have hup : ∀ {s s' : Nat}, First cut bound j s → First cut bound j s' → ¬ s < s' := by
    intro s s' h h' hlt
    rcases h'.stop with rfl | hcut
    · exact absurd h.bound_le (by omega)
    · have hle := h'.le
      exact h.uncut (s' - 1) (by omega) (by omega) hcut
  exact Nat.le_antisymm (Nat.le_of_not_lt (hup h' h)) (Nat.le_of_not_lt (hup h h'))

theorem Last.unique (h : Last cut bound j e) (h' : Last cut bound j e') : e = e' := by
  have hdown : ∀ {e e' : Nat}, Last cut bound j e → Last cut bound j e' → ¬ e < e' := by
    intro e e' h h' hlt
    rcases h.stop with rfl | hcut
    · exact absurd h'.le_bound (by omega)
    · exact h'.uncut e h.le hlt hcut
  exact Nat.le_antisymm (Nat.le_of_not_lt (hdown h' h)) (Nat.le_of_not_lt (hdown h h'))

/-- A position between the ends, with no cut on its way, has the same first position. -/
theorem First.of_between (h : First cut bound j s) (hs : s ≤ k)
    (huncut : ∀ m, j ≤ m → m < k → ¬ cut m) : First cut bound k s where
  bound_le := h.bound_le
  le := hs
  uncut m hm hmk := by
    by_cases hmj : m < j
    · exact h.uncut m hm hmj
    · exact huncut m (by omega) hmk
  stop := h.stop

theorem Last.of_between (h : Last cut bound j e) (he : k ≤ e)
    (huncut : ∀ m, k ≤ m → m < j → ¬ cut m) : Last cut bound k e where
  le_bound := h.le_bound
  le := he
  uncut m hm hme := by
    by_cases hmj : m < j
    · exact huncut m hm hmj
    · exact h.uncut m (by omega) hme
  stop := h.stop

end Spans

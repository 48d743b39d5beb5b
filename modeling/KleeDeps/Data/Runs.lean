import Mathlib.Logic.Basic

/-!
# Runs of a machine

A machine is a partial step function on states, driven by a list of choices. A property of
the runs whose steps all meet a condition is shown from one step (`invariant_of_meets`); a run
can be split anywhere (`run_append`, `meets_of_append`). A property may also speak about the
choices made so far (`history_of_run`).
-/

universe u v

namespace Runs

variable {α : Type u} {σ : Type v} (step : α → σ → Option σ)

/-- The state after some choices, if all of them are possible. -/
def run : List α → σ → Option σ
  | [], s => some s
  | a :: as, s => (step a s).bind (run as)

/-- Every step of the run meets a condition on the choice and the state before it. -/
def Meets (ok : α → σ → Prop) : List α → σ → Prop
  | [], _ => True
  | a :: as, s => ok a s ∧ ∀ t, step a s = some t → Meets ok as t

instance decidableMeets {ok : α → σ → Prop} [∀ a s, Decidable (ok a s)] :
    (as : List α) → (s : σ) → Decidable (Meets step ok as s)
  | [], _ => isTrue trivial
  | a :: as, s =>
    match h : step a s with
    | none => decidable_of_iff (ok a s)
        ⟨fun hok => ⟨hok, fun _ ht => nomatch h.symm.trans ht⟩, And.left⟩
    | some t =>
      have : Decidable (Meets step ok as t) := decidableMeets as t
      decidable_of_iff (ok a s ∧ Meets step ok as t)
        ⟨fun hok => ⟨hok.1, fun _ hu => Option.some.inj (h.symm.trans hu) ▸ hok.2⟩,
          fun hok => ⟨hok.1, hok.2 t h⟩⟩

variable {step}

theorem run_cons_iff {a : α} {as : List α} {s u : σ} :
    run step (a :: as) s = some u ↔ ∃ t, step a s = some t ∧ run step as t = some u :=
  Option.bind_eq_some_iff

theorem run_append {as bs : List α} {s u : σ} :
    run step (as ++ bs) s = some u ↔ ∃ t, run step as s = some t ∧ run step bs t = some u := by
  induction as generalizing s with
  | nil =>
    constructor
    · exact fun h => ⟨s, rfl, h⟩
    · rintro ⟨t, ht, hu⟩
      rw [Option.some.inj ht]
      exact hu
  | cons a as ih =>
    rw [List.cons_append, run_cons_iff]
    constructor
    · rintro ⟨t, ht, hrest⟩
      obtain ⟨r, hr, hu⟩ := ih.mp hrest
      exact ⟨r, run_cons_iff.mpr ⟨t, ht, hr⟩, hu⟩
    · rintro ⟨r, hr, hu⟩
      obtain ⟨t, ht, hrest⟩ := run_cons_iff.mp hr
      exact ⟨t, ht, ih.mpr ⟨r, hrest, hu⟩⟩

/-- The second part of a run whose steps meet a condition does so as well. -/
theorem meets_of_append {ok : α → σ → Prop} {as bs : List α} {s t : σ}
    (h : Meets step ok (as ++ bs) s) (hrun : run step as s = some t) :
    Meets step ok as s ∧ Meets step ok bs t := by
  induction as generalizing s with
  | nil =>
    rw [← Option.some.inj hrun]
    exact ⟨trivial, h⟩
  | cons a as ih =>
    obtain ⟨r, hr, hrest⟩ := run_cons_iff.mp hrun
    obtain ⟨has, hbs⟩ := ih (h.2 r hr) hrest
    refine ⟨⟨h.1, fun r' hr' => ?_⟩, hbs⟩
    rw [Option.some.inj (hr'.symm.trans hr)]
    exact has

/-- The invariant rule with a history: what every step keeps of the choices so far and the state,
the run keeps. -/
theorem history_of_run {P : List α → σ → Prop}
    (hstep : ∀ done a s t, P done s → step a s = some t → P (done ++ [a]) t) {done as : List α}
    {s t : σ} (h : P done s) (hrun : run step as s = some t) : P (done ++ as) t := by
  induction as generalizing done s with
  | nil =>
    rw [← Option.some.inj hrun, List.append_nil]
    exact h
  | cons a as ih =>
    obtain ⟨r, hr, hrest⟩ := run_cons_iff.mp hrun
    have hall := ih (hstep done a s r h hr) hrest
    rwa [List.append_assoc] at hall

/-- The invariant rule: what every step keeps, the run keeps. -/
theorem invariant_of_run {inv : σ → Prop} (hstep : ∀ a s t, inv s → step a s = some t → inv t)
    {as : List α} {s t : σ} (h : inv s) (hrun : run step as s = some t) : inv t :=
  @history_of_run _ _ _ (fun _ s => inv s) (fun _ a s t => hstep a s t) [] _ _ _ h hrun

/-- The invariant rule: what every step that meets the condition keeps, the run keeps. -/
theorem invariant_of_meets {ok : α → σ → Prop} {inv : σ → Prop}
    (hstep : ∀ a s t, inv s → ok a s → step a s = some t → inv t) {as : List α} {s t : σ}
    (h : inv s) (hmeets : Meets step ok as s) (hrun : run step as s = some t) : inv t := by
  induction as generalizing s with
  | nil =>
    rw [← Option.some.inj hrun]
    exact h
  | cons a as ih =>
    obtain ⟨r, hr, hrest⟩ := run_cons_iff.mp hrun
    exact ih (hstep a s r h hmeets.1 hr) (hmeets.2 r hr) hrest

end Runs

import Mathlib.Tactic

set_option autoImplicit false

/-!
# The states of a run

Runs of a total step function, looked at in each of their states. Where a step either keeps an
invariant or leaves a state that is not good, the states of a run are good exactly if each of its
steps keeps the invariant.
-/
namespace Vmwgfx.PrefixRuns

variable {σ α : Type*} {step : σ → α → σ} {I P : σ → Prop} {M : σ → α → Prop} {s : σ}
  {a : α} {as : List α}

def run (step : σ → α → σ) (s : σ) (as : List α) : σ := as.foldl step s

/-- A property of every state of a run, the first and the last included. -/
def Always (step : σ → α → σ) (P : σ → Prop) (s : σ) (as : List α) : Prop :=
  ∀ before after, as = before ++ after → P (run step s before)

/-- A property of every step of a run and the state in which it is taken. -/
def EachStep (step : σ → α → σ) (M : σ → α → Prop) (s : σ) (as : List α) : Prop :=
  ∀ before a after, as = before ++ a :: after → M (run step s before) a

theorem Always.first (h : Always step P s as) : P s := h [] as rfl

theorem always_nil : Always step P s [] ↔ P s := by
  constructor
  · exact Always.first
  · intro h before after he
    obtain rfl := (List.append_eq_nil_iff.1 he.symm).1
    exact h

theorem always_cons : Always step P s (a :: as) ↔ P s ∧ Always step P (step s a) as := by
  constructor
  · intro h
    refine ⟨h.first, fun before after he => ?_⟩
    exact h (a :: before) after (by rw [he, List.cons_append])
  · rintro ⟨hs, h⟩ before after he
    cases before with
    | nil => exact hs
    | cons b before =>
      obtain ⟨rfl, htail⟩ := List.cons.inj he
      exact h before after htail

theorem eachStep_nil : EachStep step M s [] := by
  intro before a after he
  exact absurd he.symm (by simp)

theorem eachStep_cons : EachStep step M s (a :: as) ↔ M s a ∧ EachStep step M (step s a) as := by
  constructor
  · intro h
    refine ⟨h [] a as rfl, fun before b after he => ?_⟩
    exact h (a :: before) b after (by rw [he, List.cons_append])
  · rintro ⟨hs, h⟩ before b after he
    cases before with
    | nil =>
      obtain ⟨rfl, -⟩ := List.cons.inj he
      exact hs
    | cons c before =>
      obtain ⟨rfl, htail⟩ := List.cons.inj he
      exact h before b after htail

theorem EachStep.invariant (h : EachStep step M s as) (hs : I s)
    (keep : ∀ s a, I s → M s a → I (step s a)) : I (run step s as) := by
  induction as generalizing s with
  | nil => exact hs
  | cons a as ih =>
    obtain ⟨ha, h⟩ := eachStep_cons.1 h
    exact ih h (keep s a hs ha)

theorem always_iff_eachStep (hs : I s) (good : ∀ s, I s → P s)
    (keep : ∀ s a, I s → M s a → I (step s a)) (shows : ∀ s a, I s → P (step s a) → M s a) :
    Always step P s as ↔ EachStep step M s as := by
  induction as generalizing s with
  | nil => exact ⟨fun _ => eachStep_nil, fun _ => always_nil.2 (good s hs)⟩
  | cons a as ih =>
    rw [always_cons, eachStep_cons]
    constructor
    · rintro ⟨-, h⟩
      have ha : M s a := shows s a hs h.first
      exact ⟨ha, (ih (keep s a hs ha)).1 h⟩
    · rintro ⟨ha, h⟩
      exact ⟨good s hs, (ih (keep s a hs ha)).2 h⟩

end Vmwgfx.PrefixRuns

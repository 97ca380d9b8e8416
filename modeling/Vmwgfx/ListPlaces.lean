import Mathlib.Tactic

set_option autoImplicit false

/-!
# Objects on lists

An object has one list node, so it is on one list at most, and there once. `place` says which
list that is.
-/
namespace Vmwgfx.ListPlaces

variable {ι κ : Type*} [DecidableEq ι] [DecidableEq κ]

def Listed (place : ι → Option κ) (lists : κ → List ι) : Prop :=
  ∀ i k, (lists k).count i = if place i = some k then 1 else 0

variable {place : ι → Option κ} {lists : κ → List ι} {i : ι} {k : κ}

theorem Listed.mem_iff (h : Listed place lists) : i ∈ lists k ↔ place i = some k := by
  rw [← List.one_le_count_iff, h i k]
  split_ifs with hk <;> simp [hk]

theorem listed_nil : Listed (fun _ : ι => none) (fun _ : κ => []) := by
  intro i k
  simp

theorem Listed.append (h : Listed place lists) (hi : place i = none) :
    Listed (Function.update place i (some k)) (Function.update lists k (lists k ++ [i])) := by
  intro j a
  have hj := h j a
  by_cases hji : j = i
  · subst hji
    rw [Function.update_self]
    by_cases ha : a = k
    · subst ha
      rw [Function.update_self, List.count_append, hj, hi]
      simp
    · rw [Function.update_of_ne ha, hj, hi]
      simp [Ne.symm ha]
  · rw [Function.update_of_ne hji, ← hj]
    by_cases ha : a = k
    · subst ha
      rw [Function.update_self, List.count_append, List.count_singleton]
      simp [Ne.symm hji]
    · rw [Function.update_of_ne ha]

theorem Listed.erase (h : Listed place lists) (hi : ∀ a, place i = some a → a = k) :
    Listed (Function.update place i none) (Function.update lists k ((lists k).erase i)) := by
  intro j a
  have hj := h j a
  by_cases hji : j = i
  · subst hji
    rw [Function.update_self, if_neg (by simp)]
    by_cases ha : a = k
    · subst ha
      rw [Function.update_self, List.count_erase_self, hj]
      split_ifs <;> rfl
    · rw [Function.update_of_ne ha, hj, if_neg fun hp => ha (hi a hp)]
  · rw [Function.update_of_ne hji, ← hj]
    by_cases ha : a = k
    · subst ha
      rw [Function.update_self, List.count_erase_of_ne hji]
    · rw [Function.update_of_ne ha]

end Vmwgfx.ListPlaces

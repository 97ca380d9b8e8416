import Mathlib.Tactic

set_option autoImplicit false

/-!
# Counters that are shares of their holders

Each of finitely many owners holds at most one thing. A counter kept beside the owners is
right when it counts the owners of a thing; what it has too much is a debt.
-/
namespace Vmwgfx.Shares

variable {ι α : Type*} [DecidableEq α]

def mark (v : Option α) (a : α) : ℤ := if v = some a then 1 else 0

/-- How many of the owners hold `a`. -/
def share (owners : Finset ι) (holds : ι → Option α) (a : α) : ℤ :=
  (owners.filter fun i => holds i = some a).card

variable {owners : Finset ι} {holds holds' : ι → Option α} {i : ι} {a : α}

@[simp] theorem mark_none : mark (none : Option α) = 0 := by
  funext a
  simp [mark]

theorem mark_of_eq {v : Option α} {a : α} (h : v = some a) : mark v a = 1 := if_pos h

theorem mark_nonneg (v : Option α) (a : α) : 0 ≤ mark v a := by
  unfold mark
  split_ifs <;> decide

theorem mark_some (a : α) : mark (some a) = Pi.single a 1 := by
  funext b
  by_cases h : a = b
  · subst h
    simp [mark]
  · simp [mark, h]

theorem update_add_mark (f : α → ℤ) (a : α) (n : ℤ) :
    Function.update f a (f a + n) = f + n • mark (some a) := by
  rw [mark_some]
  funext b
  by_cases hba : b = a
  · subst hba
    simp
  · simp [Function.update_of_ne hba, Pi.single_eq_of_ne hba]

theorem update_sub_mark (f : α → ℤ) (a : α) (n : ℤ) :
    Function.update f a (f a - n) = f - n • mark (some a) := by
  rw [sub_eq_add_neg, update_add_mark, neg_smul, ← sub_eq_add_neg]

theorem share_eq_sum : share owners holds = ∑ i ∈ owners, mark (holds i) := by
  funext a
  rw [share, Finset.card_filter, Nat.cast_sum, Finset.sum_apply]
  apply Finset.sum_congr rfl
  intro i _
  unfold mark
  split_ifs <;> rfl

@[simp] theorem share_empty : share (∅ : Finset ι) holds = 0 := by
  rw [share_eq_sum, Finset.sum_empty]

theorem share_congr (h : ∀ i ∈ owners, holds i = holds' i) :
    share owners holds = share owners holds' := by
  rw [share_eq_sum, share_eq_sum]
  apply Finset.sum_congr rfl
  intro i hi
  rw [h i hi]

theorem share_eq_zero (h : ∀ i ∈ owners, holds i = none) : share owners holds = 0 := by
  rw [share_eq_sum]
  apply Finset.sum_eq_zero
  intro i hi
  rw [h i hi, mark_none]

variable [DecidableEq ι]

theorem sum_change {β : Type*} [AddCommGroup β] (f g : ι → β) (hi : i ∈ owners)
    (h : ∀ j ∈ owners, j ≠ i → g j = f j) : ∑ j ∈ owners, g j = ∑ j ∈ owners, f j + g i - f i := by
  have hrest : ∑ j ∈ owners.erase i, g j = ∑ j ∈ owners.erase i, f j := by
    apply Finset.sum_congr rfl
    intro j hj
    exact h j (Finset.mem_of_mem_erase hj) (Finset.ne_of_mem_erase hj)
  rw [← Finset.add_sum_erase _ g hi, ← Finset.add_sum_erase _ f hi, hrest]
  abel

theorem share_change (holds holds' : ι → Option α) (hi : i ∈ owners)
    (h : ∀ j ∈ owners, j ≠ i → holds' j = holds j) :
    share owners holds' = share owners holds + mark (holds' i) - mark (holds i) := by
  rw [share_eq_sum, share_eq_sum]
  apply sum_change (fun j => mark (holds j)) (fun j => mark (holds' j)) hi
  intro j hj hji
  rw [h j hj hji]

theorem share_update (hi : i ∈ owners) (v : Option α) :
    share owners (Function.update holds i v) =
      share owners holds + mark v - mark (holds i) := by
  rw [share_change holds _ hi fun j _ hj => Function.update_of_ne hj _ _, Function.update_self]

theorem share_insert (hi : i ∉ owners) :
    share (insert i owners) holds = share owners holds + mark (holds i) := by
  rw [share_eq_sum, share_eq_sum, Finset.sum_insert hi]
  abel

theorem share_erase (hi : i ∈ owners) :
    share (owners.erase i) holds = share owners holds - mark (holds i) := by
  rw [share_eq_sum, share_eq_sum, ← Finset.add_sum_erase _ _ hi]
  abel

end Vmwgfx.Shares

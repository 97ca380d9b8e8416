import Mathlib.Order.Bounds.Basic
import Mathlib.Tactic

set_option autoImplicit false

/-!
# Least and greatest values of a list

Accumulators that start at one end of an order and take the minimum or the maximum with each
element of a list.
-/
namespace Vmwgfx.Extremes

variable {α β : Type} [LinearOrder β]

/-- The values of `f` on a list. -/
def values (f : α → β) (l : List α) : Set β := {b | ∃ a ∈ l, f a = b}

def foldMin (f : α → β) (m : β) (l : List α) : β := l.foldl (fun m a => min m (f a)) m

def foldMax (f : α → β) (m : β) (l : List α) : β := l.foldl (fun m a => max m (f a)) m

theorem foldMin_cons (f : α → β) (m : β) (a : α) (l : List α) :
    foldMin f m (a :: l) = foldMin f (min m (f a)) l := rfl

theorem foldMin_le_start (f : α → β) (m : β) (l : List α) : foldMin f m l ≤ m := by
  induction l generalizing m with
  | nil => exact le_refl m
  | cons a l ih => exact (ih (min m (f a))).trans (min_le_left m (f a))

theorem foldMin_le {f : α → β} {l : List α} (m : β) {a : α} (ha : a ∈ l) :
    foldMin f m l ≤ f a := by
  induction l generalizing m with
  | nil => cases ha
  | cons x l ih =>
    rw [foldMin_cons]
    cases ha with
    | head => exact (foldMin_le_start f _ l).trans (min_le_right m (f a))
    | tail _ ha => exact ih _ ha

theorem foldMin_mem (f : α → β) (m : β) (l : List α) :
    foldMin f m l = m ∨ foldMin f m l ∈ values f l := by
  induction l generalizing m with
  | nil => exact .inl rfl
  | cons a l ih =>
    rw [foldMin_cons]
    rcases ih (min m (f a)) with heq | ⟨b, hb, heq⟩
    · rcases min_choice m (f a) with hm | hm
      · exact .inl (heq.trans hm)
      · exact .inr ⟨a, List.mem_cons_self, (heq.trans hm).symm⟩
    · exact .inr ⟨b, List.mem_cons_of_mem a hb, heq⟩

theorem foldMin_isLeast {f : α → β} {m : β} {l : List α} (hl : l ≠ []) (hm : ∀ a ∈ l, f a ≤ m) :
    IsLeast (values f l) (foldMin f m l) := by
  constructor
  · rcases foldMin_mem f m l with heq | hmem
    · obtain ⟨a, ha⟩ := List.exists_mem_of_ne_nil l hl
      have hle := foldMin_le m (f := f) ha
      rw [heq] at hle ⊢
      exact ⟨a, ha, le_antisymm (hm a ha) hle⟩
    · exact hmem
  · rintro b ⟨a, ha, rfl⟩
    exact foldMin_le m ha

theorem foldMax_isGreatest {f : α → β} {m : β} {l : List α} (hl : l ≠ []) (hm : ∀ a ∈ l, m ≤ f a) :
    IsGreatest (values f l) (foldMax f m l) := by
  have hleast : IsLeast (values (fun a => OrderDual.toDual (f a)) l)
      (foldMin (fun a => OrderDual.toDual (f a)) (OrderDual.toDual m) l) :=
    foldMin_isLeast hl hm
  exact hleast

end Vmwgfx.Extremes

import Mathlib.Tactic

set_option autoImplicit false

/-!
# Spans of a ring

Positions `lo ≤ p < hi` form a ring. A span runs from `p` forward to `q`; it is
empty when they are equal, so a span never fills the ring.
-/
namespace Vmwgfx.RingSpan

/-- The position `k` places after `p`, for `k` at most the length of the ring. -/
def move (lo hi p k : ℕ) : ℕ := if p + k < hi then p + k else p + k - (hi - lo)

/-- The length of the span from `p` forward to `q`. -/
def dist (lo hi p q : ℕ) : ℕ := if p ≤ q then q - p else (hi - p) + (q - lo)

/-- Position `a` lies on the span from `p` to `q`. -/
def Within (lo hi p q a : ℕ) : Prop :=
  if p ≤ q then p ≤ a ∧ a < q else (p ≤ a ∧ a < hi) ∨ (lo ≤ a ∧ a < q)

instance (lo hi p q a : ℕ) : Decidable (Within lo hi p q a) := by
  unfold Within
  infer_instance

/-- What a memory holds on the span from `p` to `q`. -/
def contents {α : Type*} (lo hi : ℕ) (mem : ℕ → α) (p q : ℕ) : List α :=
  (List.range (dist lo hi p q)).map fun i => mem (move lo hi p i)

section positions
variable {lo hi p q : ℕ}

theorem move_zero (hp : p < hi) : move lo hi p 0 = p := by
  simp [move, hp]

theorem move_below (lo : ℕ) {k : ℕ} (h : p + k < hi) : move lo hi p k = p + k := if_pos h

theorem move_beyond {k : ℕ} (hp : lo ≤ p ∧ p < hi) (h : hi - p ≤ k) :
    move lo hi p k = lo + (k - (hi - p)) := by
  unfold move
  rw [if_neg (by omega)]
  omega

theorem move_mem {k : ℕ} (hp : lo ≤ p ∧ p < hi) (hk : k ≤ hi - lo) :
    lo ≤ move lo hi p k ∧ move lo hi p k < hi := by
  unfold move
  split_ifs <;> omega

theorem move_move {i j : ℕ} (hp : lo ≤ p ∧ p < hi) (h : i + j < hi - lo) :
    move lo hi (move lo hi p i) j = move lo hi p (i + j) := by
  unfold move
  split_ifs <;> omega

theorem dist_lt (hp : lo ≤ p ∧ p < hi) (hq : lo ≤ q ∧ q < hi) :
    dist lo hi p q < hi - lo := by
  unfold dist
  split_ifs <;> omega

theorem dist_eq_zero_iff (lo : ℕ) (hp : p < hi) : dist lo hi p q = 0 ↔ p = q := by
  unfold dist
  split_ifs <;> omega

theorem move_dist (hp : p < hi) (hq : lo ≤ q ∧ q < hi) :
    move lo hi p (dist lo hi p q) = q := by
  unfold move dist
  split_ifs <;> omega

theorem dist_move {k : ℕ} (hp : lo ≤ p ∧ p < hi) (hq : lo ≤ q ∧ q < hi)
    (hk : dist lo hi p q + k < hi - lo) :
    dist lo hi p (move lo hi q k) = dist lo hi p q + k := by
  unfold move dist at *
  split_ifs at * <;> omega

theorem dist_move_start (hp : lo ≤ p ∧ p < hi) (hq : lo ≤ q ∧ q < hi) (h : p ≠ q) :
    dist lo hi (move lo hi p 1) q + 1 = dist lo hi p q := by
  unfold move dist at *
  split_ifs at * <;> omega

theorem not_within_move {i : ℕ} (hp : lo ≤ p ∧ p < hi) (hq : lo ≤ q ∧ q < hi)
    (hfree : dist lo hi p q + i < hi - lo) : ¬ Within lo hi p q (move lo hi q i) := by
  unfold Within move dist at *
  split_ifs at * <;> omega

theorem within_move {i : ℕ} (hp : lo ≤ p ∧ p < hi) (hq : lo ≤ q ∧ q < hi)
    (hlt : i < dist lo hi p q) : Within lo hi p q (move lo hi p i) := by
  unfold Within move dist at *
  split_ifs at * <;> omega

end positions

section contents
variable {α : Type*} {lo hi p q : ℕ} {mem : ℕ → α}

theorem contents_cons (hp : lo ≤ p ∧ p < hi) (hq : lo ≤ q ∧ q < hi) (h : p ≠ q) :
    contents lo hi mem p q = mem p :: contents lo hi mem (move lo hi p 1) q := by
  have hd := dist_move_start hp hq h
  have hlt := dist_lt hp hq
  unfold contents
  rw [← hd, List.range_succ_eq_map, List.map_cons, List.map_map, move_zero hp.2]
  congr 1
  refine List.map_congr_left ?_
  intro i hi'
  have hi'' := List.mem_range.1 hi'
  rw [Function.comp_apply, move_move hp (by omega), Nat.succ_eq_add_one, add_comm]

theorem contents_append {k : ℕ} (hp : lo ≤ p ∧ p < hi) (hq : lo ≤ q ∧ q < hi)
    (hk : dist lo hi p q + k < hi - lo) :
    contents lo hi mem p (move lo hi q k) =
      contents lo hi mem p q ++ (List.range k).map fun i => mem (move lo hi q i) := by
  unfold contents
  rw [dist_move hp hq hk, List.range_add, List.map_append, List.map_map]
  congr 1
  refine List.map_congr_left ?_
  intro i hi'
  have hi'' := List.mem_range.1 hi'
  rw [Function.comp_apply, ← move_move hp (by omega), move_dist hp.2 hq]

theorem contents_congr {mem' : ℕ → α} (hp : lo ≤ p ∧ p < hi) (hq : lo ≤ q ∧ q < hi)
    (h : ∀ a, Within lo hi p q a → mem' a = mem a) :
    contents lo hi mem' p q = contents lo hi mem p q := by
  refine List.map_congr_left ?_
  intro i hi'
  exact h _ (within_move hp hq (List.mem_range.1 hi'))

end contents

end Vmwgfx.RingSpan

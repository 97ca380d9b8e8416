import Mathlib.Tactic

set_option autoImplicit false

/-!
# Pieces laid end to end

Pieces of given sizes where each begins at the end of the one before it. They do not overlap and
fill all places up to the end of the last; and pieces that do not overlap have no more places
than what they lie in.
-/
namespace Vmwgfx.Tilings

/-- Where a piece begins that lies behind all pieces before it. -/
def start (size : ℕ → ℕ) (k : ℕ) : ℕ := ∑ i ∈ Finset.range k, size i

def piece (off size : ℕ → ℕ) (k : ℕ) : Finset ℕ := Finset.Ico (off k) (off k + size k)

/-- The first `n` pieces do not overlap. -/
def Apart (off size : ℕ → ℕ) (n : ℕ) : Prop :=
  ∀ i < n, ∀ j < n, i ≠ j → Disjoint (piece off size i) (piece off size j)

/-- The first `n` pieces lie below `total`. -/
def Inside (off size : ℕ → ℕ) (n total : ℕ) : Prop := ∀ i < n, off i + size i ≤ total

/-- The first `n` pieces lie in their order, do not overlap and fill all places below `total`. -/
structure Tiles (off size : ℕ → ℕ) (n total : ℕ) : Prop where
  order : ∀ k < n, off k = start size k
  apart : Apart off size n
  cover : (Finset.range n).biUnion (piece off size) = Finset.range total

variable {off size : ℕ → ℕ} {n total i j k x : ℕ}

theorem start_succ (size : ℕ → ℕ) (k : ℕ) : start size (k + 1) = start size k + size k :=
  Finset.sum_range_succ _ _

theorem start_mono (size : ℕ → ℕ) : Monotone (start size) :=
  monotone_nat_of_le_succ fun k => by
    rw [start_succ]
    exact Nat.le_add_right _ _

theorem start_add_le (size : ℕ → ℕ) (h : i < j) : start size i + size i ≤ start size j := by
  rw [← start_succ]
  exact start_mono size h

theorem start_congr {size' : ℕ → ℕ} (h : ∀ i < k, size i = size' i) :
    start size k = start size' k :=
  Finset.sum_congr rfl fun i hi => h i (Finset.mem_range.1 hi)

theorem start_rows (size : ℕ → ℕ) (cols row : ℕ) (h : k ≤ cols) :
    start (fun i => size (i % cols)) (row * cols + k) = row * start size cols + start size k := by
  have hlast : ∀ r k, k ≤ cols → start (fun i => size (i % cols)) (r * cols + k) =
      start (fun i => size (i % cols)) (r * cols) + start size k := by
    intro r k hk
    unfold start
    rw [Finset.sum_range_add]
    congr 1
    apply Finset.sum_congr rfl
    intro i hi
    have hi := Finset.mem_range.1 hi
    rw [Nat.mul_add_mod_of_lt (by omega)]
  rw [hlast row k h]
  congr 1
  induction row with
  | zero => simp [start]
  | succ row ih => rw [Nat.succ_mul, hlast row cols le_rfl, ih, Nat.succ_mul]

theorem mem_piece : x ∈ piece off size k ↔ off k ≤ x ∧ x < off k + size k := Finset.mem_Ico

theorem apart_start (size : ℕ → ℕ) (n : ℕ) : Apart (start size) size n := by
  intro i _ j _ hne
  rw [Finset.disjoint_left]
  intro x hi hj
  rw [mem_piece] at hi hj
  rcases Nat.lt_or_gt_of_ne hne with hlt | hgt
  · have hend := start_add_le size hlt
    omega
  · have hend := start_add_le size hgt
    omega

theorem inside_start (size : ℕ → ℕ) (n : ℕ) : Inside (start size) size n (start size n) :=
  fun _ hi => start_add_le size hi

theorem exists_piece (h : x < start size n) : ∃ i < n, x ∈ piece (start size) size i := by
  induction n with
  | zero => exact absurd h (Nat.not_lt_zero x)
  | succ n ih =>
    by_cases hx : x < start size n
    · obtain ⟨i, hi, hmem⟩ := ih hx
      exact ⟨i, by omega, hmem⟩
    · rw [start_succ] at h
      exact ⟨n, Nat.lt_succ_self n, mem_piece.2 ⟨by omega, h⟩⟩

theorem piece_congr {off' size' : ℕ → ℕ} (ho : off k = off' k) (hs : size k = size' k) :
    piece off size k = piece off' size' k := by
  unfold piece
  rw [ho, hs]

theorem apart_congr {off' size' : ℕ → ℕ} (ho : ∀ k < n, off k = off' k)
    (hs : ∀ k < n, size k = size' k) (ha : Apart off' size' n) : Apart off size n := by
  intro i hi j hj hne
  rw [piece_congr (ho i hi) (hs i hi), piece_congr (ho j hj) (hs j hj)]
  exact ha i hi j hj hne

theorem inside_congr {off' size' : ℕ → ℕ} (ho : ∀ k < n, off k = off' k)
    (hs : ∀ k < n, size k = size' k) (hin : Inside off' size' n total) :
    Inside off size n total := by
  intro i hi
  rw [ho i hi, hs i hi]
  exact hin i hi

theorem tiles_of_order (h : ∀ k < n, off k = start size k) (ht : total = start size n) :
    Tiles off size n total := by
  refine ⟨h, apart_congr h (fun _ _ => rfl) (apart_start size n), ?_⟩
  ext x
  rw [Finset.mem_biUnion, Finset.mem_range]
  constructor
  · rintro ⟨i, hi, hx⟩
    have hin := Finset.mem_range.1 hi
    rw [piece_congr (h i hin) rfl, mem_piece] at hx
    have hend := inside_start size n i hin
    omega
  · intro hx
    obtain ⟨i, hi, hmem⟩ := exists_piece (ht ▸ hx)
    refine ⟨i, Finset.mem_range.2 hi, ?_⟩
    rw [piece_congr (h i hi) rfl]
    exact hmem

theorem card_piece (off size : ℕ → ℕ) (k : ℕ) : (piece off size k).card = size k := by
  rw [piece, Nat.card_Ico]
  omega

theorem start_le_of_apart (ha : Apart off size n) (hin : Inside off size n total) :
    start size n ≤ total := by
  have hcard : ((Finset.range n).biUnion (piece off size)).card = start size n := by
    rw [Finset.card_biUnion]
    · exact Finset.sum_congr rfl fun i _ => card_piece off size i
    · intro i hi j hj hne
      exact ha i (Finset.mem_range.1 hi) j (Finset.mem_range.1 hj) hne
  have hsub : (Finset.range n).biUnion (piece off size) ⊆ Finset.range total := by
    intro x hx
    obtain ⟨i, hi, hmem⟩ := Finset.mem_biUnion.1 hx
    have hend := hin i (Finset.mem_range.1 hi)
    rw [mem_piece] at hmem
    rw [Finset.mem_range]
    omega
  calc start size n = ((Finset.range n).biUnion (piece off size)).card := hcard.symm
    _ ≤ (Finset.range total).card := Finset.card_le_card hsub
    _ = total := Finset.card_range total

end Vmwgfx.Tilings

import Mathlib.Tactic

set_option autoImplicit false

/-!
# Little-endian words in byte-addressed memory

Memory is a total function from addresses to bytes. Words of four bytes are read and
written at any address.
-/
namespace Vmwgfx.ByteStore

abbrev Memory := ℤ → UInt8

/-- The 32-bit word at address `a`. -/
def word (m : Memory) (a : ℤ) : ℕ :=
  (m a).toNat + 2 ^ 8 * (m (a + 1)).toNat + 2 ^ 16 * (m (a + 2)).toNat +
    2 ^ 24 * (m (a + 3)).toNat

/-- Byte `i` of a word. -/
def byteOf (v i : ℕ) : UInt8 := UInt8.ofNat (v / 2 ^ (8 * i) % 2 ^ 8)

def store (m : Memory) (a : ℤ) (v : ℕ) : Memory := fun b =>
  if a ≤ b ∧ b < a + 4 then byteOf v (b - a).toNat else m b

/-- Memory that holds the given words from address 0 on. -/
def ofWords (ws : List ℕ) : Memory := fun a => byteOf (ws.getD (a.toNat / 4) 0) (a.toNat % 4)

theorem word_lt (m : Memory) (a : ℤ) : word m a < 2 ^ 32 := by
  have h₀ := (m a).toNat_lt
  have h₁ := (m (a + 1)).toNat_lt
  have h₂ := (m (a + 2)).toNat_lt
  have h₃ := (m (a + 3)).toNat_lt
  unfold word
  omega

theorem word_congr {m m' : Memory} {a : ℤ} (h : ∀ b, a ≤ b → b < a + 4 → m' b = m b) :
    word m' a = word m a := by
  unfold word
  rw [h a (by omega) (by omega), h (a + 1) (by omega) (by omega), h (a + 2) (by omega) (by omega),
    h (a + 3) (by omega) (by omega)]

theorem store_outside {m : Memory} {a b : ℤ} {v : ℕ} (h : b < a ∨ a + 4 ≤ b) :
    store m a v b = m b := by
  unfold store
  rw [if_neg (by omega)]

theorem word_store_outside {m : Memory} {a b : ℤ} {v : ℕ} (h : b + 4 ≤ a ∨ a + 4 ≤ b) :
    word (store m a v) b = word m b := by
  refine word_congr ?_
  intro c hc hc'
  exact store_outside (by omega)

theorem byteOf_toNat (v i : ℕ) : (byteOf v i).toNat = v / 2 ^ (8 * i) % 2 ^ 8 := by
  unfold byteOf
  rw [UInt8.toNat_ofNat']
  exact Nat.mod_mod _ _

theorem store_at {m : Memory} {a : ℤ} {v : ℕ} (i : ℕ) (h : i < 4) :
    store m a v (a + i) = byteOf v i := by
  unfold store
  rw [if_pos (by omega)]
  congr 1
  omega

theorem word_store {m : Memory} {a : ℤ} {v : ℕ} (h : v < 2 ^ 32) : word (store m a v) a = v := by
  have h₀ := store_at (m := m) (a := a) (v := v) 0 (by omega)
  have h₁ := store_at (m := m) (a := a) (v := v) 1 (by omega)
  have h₂ := store_at (m := m) (a := a) (v := v) 2 (by omega)
  have h₃ := store_at (m := m) (a := a) (v := v) 3 (by omega)
  push_cast at h₀ h₁ h₂ h₃
  rw [add_zero] at h₀
  unfold word
  rw [h₀, h₁, h₂, h₃, byteOf_toNat, byteOf_toNat, byteOf_toNat, byteOf_toNat]
  omega

theorem store_word (m : Memory) (a : ℤ) : store m a (word m a) = m := by
  have h₀ := (m a).toNat_lt
  have h₁ := (m (a + 1)).toNat_lt
  have h₂ := (m (a + 2)).toNat_lt
  have h₃ := (m (a + 3)).toNat_lt
  funext b
  unfold store
  split_ifs with hb
  · have hcases : b = a ∨ b = a + 1 ∨ b = a + 2 ∨ b = a + 3 := by omega
    rw [← UInt8.toNat_inj, byteOf_toNat]
    unfold word
    rcases hcases with h | h | h | h
    · rw [h, show (a - a).toNat = 0 by omega]
      omega
    · rw [h, show (a + 1 - a).toNat = 1 by omega]
      omega
    · rw [h, show (a + 2 - a).toNat = 2 by omega]
      omega
    · rw [h, show (a + 3 - a).toNat = 3 by omega]
      omega
  · rfl

theorem store_eqOn {m m' : Memory} {S : Set ℤ} (h : Set.EqOn m m' S) (a : ℤ) (v : ℕ) :
    Set.EqOn (store m a v) (store m' a v) S := by
  intro b hb
  unfold store
  rw [h hb]

theorem byteOf_add_congr {m m' : Memory} {a : ℤ} {d i : ℕ} (hi : i < 4)
    (h : ∀ b, b ≤ a + i → m b = m' b) :
    byteOf ((word m a + d) % 2 ^ 32) i = byteOf ((word m' a + d) % 2 ^ 32) i := by
  rw [← UInt8.toNat_inj, byteOf_toNat, byteOf_toNat]
  unfold word
  have h₀ := h a (by omega)
  rcases (by omega : i = 0 ∨ i = 1 ∨ i = 2 ∨ i = 3) with rfl | rfl | rfl | rfl
  · rw [h₀]
    omega
  · have h₁ := h (a + 1) (by omega)
    rw [h₀, h₁]
    omega
  · have h₁ := h (a + 1) (by omega)
    have h₂ := h (a + 2) (by omega)
    rw [h₀, h₁, h₂]
    omega
  · have h₁ := h (a + 1) (by omega)
    have h₂ := h (a + 2) (by omega)
    have h₃ := h (a + 3) (by omega)
    rw [h₀, h₁, h₂, h₃]

/-- Adding to a word keeps memories equal that are equal up to some address, wherever the
    word lies. -/
theorem store_add_eqOn {m m' : Memory} {n : ℤ} (h : Set.EqOn m m' (Set.Iio n)) (a : ℤ) (d : ℕ) :
    Set.EqOn (store m a ((word m a + d) % 2 ^ 32)) (store m' a ((word m' a + d) % 2 ^ 32))
      (Set.Iio n) := by
  intro b hb
  unfold store
  split_ifs with hab
  · refine byteOf_add_congr (by omega) fun c hc => h ?_
    simp only [Set.mem_Iio] at hb ⊢
    omega
  · exact h hb

end Vmwgfx.ByteStore

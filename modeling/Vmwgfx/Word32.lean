import Mathlib.Tactic

set_option autoImplicit false

/-!
# Unsigned 32-bit arithmetic on naturals

Counters and sizes are kept as naturals and wrapped explicitly. The distance
lemmas compare two counters through a common later one, which is how serial
numbers are ordered.
-/
namespace Vmwgfx.Word32

def addU32 (a b : ℕ) : ℕ := (a + b) % 2 ^ 32

def subU32 (a b : ℕ) : ℕ := (a + (2 ^ 32 - b % 2 ^ 32)) % 2 ^ 32

theorem addU32_of_lt {a b : ℕ} (h : a + b < 2 ^ 32) : addU32 a b = a + b := Nat.mod_eq_of_lt h

theorem subU32_of_le {a b : ℕ} (h : b ≤ a) (ha : a < 2 ^ 32) : subU32 a b = a - b := by
  unfold subU32
  omega

@[simp] theorem subU32_self (a : ℕ) : subU32 a a = 0 := by
  unfold subU32
  omega

theorem subU32_succ_mod (n : ℕ) : subU32 ((n + 1) % 2 ^ 32) 1 = n % 2 ^ 32 := by
  unfold subU32
  omega

theorem subU32_through (m x y : ℕ) :
    subU32 x y = if subU32 m x ≤ subU32 m y then subU32 m y - subU32 m x
      else subU32 m y + 2 ^ 32 - subU32 m x := by
  unfold subU32
  split_ifs <;> omega

/-- Two counters less than half a word behind `m`: the first is at or after
    the second exactly when it is at most as far behind. -/
theorem subU32_lt_half_iff {m x y : ℕ} (hx : subU32 m x < 2 ^ 31) (hy : subU32 m y < 2 ^ 31) :
    subU32 y x < 2 ^ 31 ↔ subU32 m y ≤ subU32 m x := by
  unfold subU32 at *
  omega

end Vmwgfx.Word32

import Mathlib.Tactic

set_option autoImplicit false

/-!
# Signed 32-bit arithmetic on integers

A signed value is kept as an integer and wrapped explicitly. Sums of several terms are wrapped
once, since only the last wrap is seen.
-/
namespace Vmwgfx.Signed32

/-- The value of `z` in a signed 32-bit variable. -/
def s32 (z : ℤ) : ℤ := (z + 0x80000000) % 0x100000000 - 0x80000000

/-- The value of `z` in an unsigned 32-bit variable. -/
def u32 (z : ℤ) : ℤ := z % 0x100000000

def s32Max : ℤ := 0x7fffffff

def s32Min : ℤ := -0x80000000

theorem s32_le (z : ℤ) : s32 z ≤ s32Max := by
  unfold s32 s32Max
  omega

theorem le_s32 (z : ℤ) : s32Min ≤ s32 z := by
  unfold s32 s32Min
  omega

theorem s32_of_mem {z : ℤ} (h : s32Min ≤ z) (h' : z ≤ s32Max) : s32 z = z := by
  unfold s32Min at h
  unfold s32Max at h'
  unfold s32
  omega

theorem s32_eq_add (z : ℤ) : ∃ k : ℤ, s32 z = z + 0x100000000 * k := by
  refine ⟨-((z + 0x80000000) / 0x100000000), ?_⟩
  unfold s32
  omega

theorem toInt_mem (v : BitVec 32) : s32Min ≤ v.toInt ∧ v.toInt ≤ s32Max := by
  have hlt := @BitVec.toInt_lt 32 v
  have hle := @BitVec.le_toInt 32 v
  unfold s32Min s32Max
  norm_num at hlt hle
  omega

end Vmwgfx.Signed32

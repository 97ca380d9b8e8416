import Mathlib.Order.Lattice
import Mathlib.Tactic.NormNum

set_option autoImplicit false

/-!
# `vmw_diff_memcpy`

A copy that keeps the box of the pixels it changed. The first and the last difference are
looked for with words as wide as the alignment of the two buffers allows.
-/
namespace Vmwgfx.DiffMemcpy

abbrev Mem := ℕ → UInt8

abbrev CInt := {v : ℤ // -2 ^ 31 ≤ v ∧ v < 2 ^ 31}

def wrapInt (v : ℕ) : ℤ :=
  if v % 2 ^ 32 < 2 ^ 31 then (v % 2 ^ 32 : ℕ) else (v % 2 ^ 32 : ℕ) - 2 ^ 32

theorem wrapInt_bounds (v : ℕ) : -2 ^ 31 ≤ wrapInt v ∧ wrapInt v < 2 ^ 31 := by
  unfold wrapInt
  omega

def toInt (v : ℕ) : CInt := ⟨wrapInt v, wrapInt_bounds v⟩

theorem toInt_of_lt {v : ℕ} (h : v < 2 ^ 31) : (toInt v : ℤ) = v := by
  change wrapInt v = v
  unfold wrapInt
  omega

def sizeT (v : ℕ) : ℕ := v % 2 ^ 64

/-- `struct drm_rect`: the upper bounds are outside. -/
structure DrmRect where
  x1 : CInt
  y1 : CInt
  x2 : CInt
  y2 : CInt

structure VmwDiffCpy where
  rect : DrmRect
  line : ℕ
  lineOffset : ℕ
  cpp : ℕ

def VmwDiffCpy.initializer (cpp : ℕ) : VmwDiffCpy where
  rect :=
    { x1 := toInt 1073741823
      y1 := toInt 1073741823
      x2 := ⟨-1073741824, by decide⟩
      y2 := ⟨-1073741824, by decide⟩ }
  line := 0
  lineOffset := 0
  cpp := cpp

/-- `round_down` on `size_t`. -/
def roundDown (x y : ℕ) : ℕ := x / y * y

/-- `round_down` on `ssize_t`. -/
def roundDownSigned (x : ℤ) (y : ℕ) : ℤ := x / y * y

/-- `SPILL` for a type of `w` bytes. -/
def spill (addr w : ℕ) : ℕ := addr % w

def word (mem : Mem) : ℕ → ℕ → ℕ
  | 0, _ => 0
  | w + 1, addr => (mem addr).toNat + 256 * word mem w (addr + 1)

/-- The loop of `VMW_FIND_FIRST_DIFF` with `k` words to go. -/
def firstDiffLoop (mem : Mem) (w : ℕ) : ℕ → ℕ → ℕ → ℕ → ℕ
  | 0, _, _, i => i
  | k + 1, dst, src, i =>
    if word mem w dst ≠ word mem w src then i
    else firstDiffLoop mem w k (dst + w) (src + w) (i + w)

/-- `VMW_FIND_FIRST_DIFF` for a type of `w` bytes: as many words as begin below `size`. -/
def findFirstDiff (w : ℕ) (mem : Mem) (dst src size : ℕ) : ℕ :=
  firstDiffLoop mem w ((size + w - 1) / w) dst src 0

def vmwFindFirstDiffU8 : Mem → ℕ → ℕ → ℕ → ℕ := findFirstDiff 1

structure FirstSearch where
  dst : ℕ
  src : ℕ
  size : ℕ
  offset : ℕ

def FirstSearch.advance (s : FirstSearch) (n : ℕ) : FirstSearch :=
  ⟨s.dst + n, s.src + n, s.size - n, s.offset + n⟩

/-- The first half of `VMW_TRY_FIND_FIRST_DIFF`, up to the next aligned address. The new value
of `spill` is returned, and an error is what the function returns. -/
def tryFirstHead (mem : Mem) (w granularity : ℕ) (s : FirstSearch) :
    Except ℕ (FirstSearch × ℕ) :=
  let sp := spill s.dst w
  if sp ≠ 0 ∧ sp = spill s.src w ∧ w - sp ≤ s.size then
    let diffOffs := vmwFindFirstDiffU8 mem s.dst s.src (w - sp)
    if diffOffs < w - sp then .error (roundDown (s.offset + diffOffs) granularity)
    else .ok (s.advance (w - sp), 0)
  else .ok (s, sp)

def tryFirstWide (mem : Mem) (w granularity : ℕ) (s : FirstSearch) (sp : ℕ) :
    Except ℕ FirstSearch :=
  if sp = 0 ∧ spill s.src w = 0 then
    let toCopy := roundDown s.size w
    let diffOffs := findFirstDiff w mem s.dst s.src toCopy
    if s.size ≤ diffOffs ∨ granularity = w then .error (s.offset + diffOffs)
    else .ok (s.advance diffOffs)
  else .ok s

def tryFindFirstDiff (mem : Mem) (w granularity : ℕ) (s : FirstSearch) :
    Except ℕ FirstSearch := do
  let (s, sp) ← tryFirstHead mem w granularity s
  tryFirstWide mem w granularity s sp

def vmwFindFirstDiff (mem : Mem) (dst src size granularity : ℕ) : ℕ :=
  let tried : Except ℕ FirstSearch := do
    let s ← tryFindFirstDiff mem 8 granularity ⟨dst, src, size, 0⟩
    let s ← tryFindFirstDiff mem 4 granularity s
    tryFindFirstDiff mem 2 granularity s
  match tried with
  | .error found => found
  | .ok s =>
    roundDown (s.offset + vmwFindFirstDiffU8 mem s.dst s.src s.size) granularity

/-- `vmw_find_first_diff` behind its `u64`. -/
def findFirstNarrow (mem : Mem) (granularity : ℕ) (s : FirstSearch) : ℕ :=
  let tried : Except ℕ FirstSearch := do
    let s ← tryFindFirstDiff mem 4 granularity s
    tryFindFirstDiff mem 2 granularity s
  match tried with
  | .error found => found
  | .ok s =>
    roundDown (s.offset + vmwFindFirstDiffU8 mem s.dst s.src s.size) granularity

/-- The function with `CONFIG_64BIT` set or not. -/
def vmwFindFirstDiffFor (config64Bit : Bool) (mem : Mem) (dst src size granularity : ℕ) : ℕ :=
  if config64Bit then vmwFindFirstDiff mem dst src size granularity
  else findFirstNarrow mem granularity ⟨dst, src, size, 0⟩

/-- The loop of `VMW_FIND_LAST_DIFF` with `k` words to go; the pointers are past the words. -/
def lastDiffLoop (mem : Mem) (w : ℕ) : ℕ → ℕ → ℕ → ℕ → ℕ
  | 0, _, _, size => size
  | k + 1, dst, src, size =>
    if word mem w (dst - w) ≠ word mem w (src - w) then size
    else lastDiffLoop mem w k (dst - w) (src - w) (size - w)

/-- `VMW_FIND_LAST_DIFF` for a type of `w` bytes; `size` is a multiple of `w`. -/
def findLastDiff (w : ℕ) (mem : Mem) (dst src size : ℕ) : ℕ :=
  lastDiffLoop mem w (size / w) dst src size

def vmwFindLastDiffU8 : Mem → ℕ → ℕ → ℕ → ℕ := findLastDiff 1

/-- The variables of `vmw_find_last_diff`; the pointers are past the end. -/
structure LastSearch where
  dst : ℕ
  src : ℕ
  size : ℕ

def LastSearch.retreat (s : LastSearch) (n : ℕ) : LastSearch :=
  ⟨s.dst - n, s.src - n, s.size - n⟩

/-- The first half of `VMW_TRY_FIND_LAST_DIFF`, down to the next aligned address. -/
def tryLastTail (mem : Mem) (w granularity : ℕ) (s : LastSearch) :
    Except ℤ (LastSearch × ℕ) :=
  let sp := spill s.dst w
  if sp ≠ 0 ∧ sp ≤ s.size ∧ sp = spill s.src w then
    let diffOffs := vmwFindLastDiffU8 mem s.dst s.src sp
    if diffOffs ≠ 0 then
      let location : ℤ := (s.size : ℤ) - sp + diffOffs - 1
      .error (roundDownSigned location granularity)
    else .ok (s.retreat sp, 0)
  else .ok (s, sp)

def tryLastWide (mem : Mem) (w granularity : ℕ) (s : LastSearch) (sp : ℕ) :
    Except ℤ LastSearch :=
  if sp = 0 ∧ spill s.src w = 0 then
    let toCopy := roundDown s.size w
    let diffOffs := findLastDiff w mem s.dst s.src toCopy
    let location : ℤ := (s.size : ℤ) - toCopy + diffOffs - w
    if location < 0 ∨ granularity = w then .error location
    else .ok (s.retreat (toCopy - diffOffs))
  else .ok s

def tryFindLastDiff (mem : Mem) (w granularity : ℕ) (s : LastSearch) :
    Except ℤ LastSearch := do
  let (s, sp) ← tryLastTail mem w granularity s
  tryLastWide mem w granularity s sp

def vmwFindLastDiff (mem : Mem) (dst src size granularity : ℕ) : ℤ :=
  let tried : Except ℤ LastSearch := do
    let s ← tryFindLastDiff mem 8 granularity ⟨dst + size, src + size, size⟩
    let s ← tryFindLastDiff mem 4 granularity s
    tryFindLastDiff mem 2 granularity s
  match tried with
  | .error found => found
  | .ok s =>
    roundDownSigned ((vmwFindLastDiffU8 mem s.dst s.src s.size : ℤ) - 1) granularity

/-- `memcpy` between ranges that do not overlap. -/
def memcpy (mem : Mem) (dest src n : ℕ) : Mem := fun a =>
  if dest ≤ a ∧ a < dest + n then mem (src + (a - dest)) else mem a

def vmwAdjustRect (diff : VmwDiffCpy) (diffOffs : ℕ) : VmwDiffCpy :=
  let offs := sizeT (diffOffs + diff.lineOffset) / diff.cpp
  { diff with
    rect :=
      { x1 := min diff.rect.x1 (toInt offs)
        x2 := max diff.rect.x2 (toInt (sizeT (offs + 1)))
        y1 := min diff.rect.y1 (toInt diff.line)
        y2 := max diff.rect.y2 (toInt (sizeT (diff.line + 1))) } }

def VmwDiffCpy.advance (diff : VmwDiffCpy) (n : ℕ) : VmwDiffCpy :=
  { diff with lineOffset := sizeT (diff.lineOffset + n) }

def vmwDiffMemcpy (diff : VmwDiffCpy) (mem : Mem) (dest src n : ℕ) : VmwDiffCpy × Mem :=
  if roundDown n diff.cpp ≠ n then (diff, mem)
  else
    let csize := vmwFindFirstDiff mem dest src n diff.cpp
    if csize < n then
      let diff := (vmwAdjustRect diff csize).advance csize
      let dest := dest + csize
      let src := src + csize
      let n := n - csize
      let csize := vmwFindLastDiff mem dest src n diff.cpp
      if 0 ≤ csize then
        let diff := vmwAdjustRect diff csize.toNat
        (diff.advance n, memcpy mem dest src ((diff.cpp : ℤ) + csize).toNat)
      else (diff.advance n, memcpy mem dest src diff.cpp)
    else (diff.advance n, mem)

end Vmwgfx.DiffMemcpy

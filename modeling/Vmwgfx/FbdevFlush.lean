import Vmwgfx.ExecbufState
import Vmwgfx.BlitRows
import Vmwgfx.Signed32

set_option autoImplicit false

/-!
# The flush of the fbdev shadow buffer

`vmw_fb_dirty_flush` after any configuration and any panning, in the mixed signed and unsigned
arithmetic of the source: which bytes it copies, which of the shadow buffer it reads, and which
clip it reports.
-/
namespace Vmwgfx.FbdevFlush
open ExecbufState (Errno)
open Signed32
open CpuBlit (copyRow copyRows Shape)

/-- What is read of `struct vmw_private`; `memory` is the one of `prim_bb_mem` and `vram_size`
    that modes are compared with. -/
structure VmwPrivate where
  fbMaxWidth : UInt32
  fbMaxHeight : UInt32
  memory : UInt32

structure FbBitfield where
  offset : UInt32
  length : UInt32

/-- `struct fb_var_screeninfo`. -/
structure FbVar where
  xres : UInt32
  yres : UInt32
  xresVirtual : UInt32
  yresVirtual : UInt32
  xoffset : UInt32
  yoffset : UInt32
  bitsPerPixel : UInt32
  red : FbBitfield
  green : FbBitfield
  blue : FbBitfield
  transp : FbBitfield

/-- From `x1` and `y1` to before `x2` and `y2`. -/
structure Rect where
  x1 : UInt32
  y1 : UInt32
  x2 : UInt32
  y2 : UInt32

structure Framebuffer where
  width : UInt32
  height : UInt32
  pitch : UInt32

structure Par where
  setFb : Option Framebuffer
  fbX : UInt32
  fbY : UInt32
  dirty : Rect
  active : Bool

def cpp : UInt32 := 4

section Configurations
variable (dev : VmwPrivate)

def maxWidth : UInt32 := min dev.fbMaxWidth 2048
def maxHeight : UInt32 := min dev.fbMaxHeight 2048

/-- `info->fix.line_length`, the `fb_pitch` of `vmw_fb_init`. -/
def lineLength : UInt32 := maxWidth dev * 32 / 8

def fbSize : UInt32 := lineLength dev * maxHeight dev

def vmwKmsValidateModeVram (pitch height : UInt32) : Bool :=
  pitch.toUInt64 * height.toUInt64 < dev.memory.toUInt64

def setColours (var : FbVar) : FbVar :=
  { var with
    red := ⟨16, 8⟩
    green := ⟨8, 8⟩
    blue := ⟨0, 8⟩
    transp := if 0 < var.transp.length then ⟨24, 8⟩ else ⟨0, 0⟩ }

def vmwFbCheckVar (var : FbVar) : Except Errno FbVar :=
  if var.bitsPerPixel ≠ 32 then .error .einval
  else
    let var := setColours var
    if maxWidth dev < var.xoffset + var.xres ∨ maxHeight dev < var.yoffset + var.yres then
      .error .einval
    else if vmwKmsValidateModeVram dev (var.xres * var.bitsPerPixel / 8) (var.yoffset + var.yres) then
      .ok var
    else .error .einval

def vmwFbDirtyMark (x1 y1 width height : UInt32) (p : Par) : Par :=
  let x2 := x1 + width
  let y2 := y1 + height
  if p.dirty.x1 = p.dirty.x2 then { p with dirty := ⟨x1, y1, x2, y2⟩ }
  else
    { p with
      dirty := ⟨min x1 p.dirty.x1, min y1 p.dirty.y1, max x2 p.dirty.x2, max y2 p.dirty.y2⟩ }

/-- The framebuffer of a configuration, which `vmw_fb_kms_framebuffer` makes or keeps. -/
def framebuffer (var : FbVar) : Framebuffer :=
  ⟨var.xres, var.yres, (var.bitsPerPixel + 7) / 8 * var.xres⟩

/-- `vmw_fb_set_par` when nothing in it fails. -/
def vmwFbSetPar (var : FbVar) (p : Par) : Par :=
  vmwFbDirtyMark var.xoffset var.yoffset (framebuffer var).width (framebuffer var).height
    { p with setFb := some (framebuffer var), fbX := var.xoffset, fbY := var.yoffset }

def vmwFbPanDisplay (var : FbVar) (p : Par) : Par :=
  if var.xresVirtual < var.xoffset + var.xres ∨ var.yresVirtual < var.yoffset + var.yres then p
  else
    let p := { p with fbX := var.xoffset, fbY := var.yoffset }
    match p.setFb with
    | none => p
    | some fb => vmwFbDirtyMark p.fbX p.fbY fb.width fb.height p

end Configurations

def z (a : UInt32) : ℤ := a.toNat

/-- `dst_x1` and `dst_y1`. -/
def dstStart (dirty1 fb : UInt32) : ℤ := max (s32 (z dirty1 - z fb)) 0

/-- `dst_x2` and `dst_y2`; `fb + size` is `max_x` or `max_y`. -/
def dstEnd (dirty2 fb size : UInt32) : ℤ := min (s32 (z dirty2 - z fb)) (s32 (z fb + z size))

/-- `w` and `h`. -/
def dstLength (dirty1 dirty2 fb size : UInt32) : ℤ :=
  max 0 (s32 (dstEnd dirty2 fb size - dstStart dirty1 fb))

/-- `struct drm_clip_rect`. -/
structure Clip where
  x1 : UInt16
  y1 : UInt16
  x2 : UInt16
  y2 : UInt16

/-- What a flush copies: `h` rows of `len` bytes, and the clip. -/
structure Flush where
  x1 : ℤ
  y1 : ℤ
  w : ℤ
  h : ℤ
  dstPtr : ℕ
  srcPtr : ℕ
  len : ℕ
  clip : Clip

def u16 (a : ℤ) : UInt16 := UInt16.ofNat (a % 0x10000).toNat

/-- The copy from the dirty rectangle; the pointers are computed in `u32`. -/
def takeDirty (dev : VmwPrivate) (fb : Framebuffer) (p : Par) : Option Flush :=
  let x1 := dstStart p.dirty.x1 p.fbX
  let y1 := dstStart p.dirty.y1 p.fbY
  let w := dstLength p.dirty.x1 p.dirty.x2 p.fbX fb.width
  let h := dstLength p.dirty.y1 p.dirty.y2 p.fbY fb.height
  if w ≠ 0 ∧ h ≠ 0 then
    some
      { x1 := x1
        y1 := y1
        w := w
        h := h
        dstPtr := (u32 (y1 * z fb.pitch + x1 * z cpp)).toNat
        srcPtr := (u32 (u32 (y1 + z p.fbY) * z (lineLength dev) +
          u32 (x1 + z p.fbX) * z cpp)).toNat
        len := (u32 (w * z cpp)).toNat
        clip := ⟨u16 x1, u16 y1, u16 (dstEnd p.dirty.x2 p.fbX fb.width),
          u16 (dstEnd p.dirty.y2 p.fbY fb.height)⟩ }
  else none

/-- `vmw_fb_dirty_flush`. `mapped` tells whether the buffer could be mapped. -/
def vmwFbDirtyFlush (dev : VmwPrivate) (mapped : Bool) (p : Par) : Option Flush :=
  match p.setFb with
  | none => none
  | some fb => if p.active && mapped then takeDirty dev fb p else none

/-- The loop of `memcpy`. -/
def Flush.copy (dev : VmwPrivate) (fb : Framebuffer) (f : Flush) (virtual vmalloc : ℕ → UInt8) :
    ℕ → UInt8 :=
  copyRows virtual vmalloc f.dstPtr f.srcPtr ⟨fb.pitch.toNat, (lineLength dev).toNat, f.len⟩
    f.h.toNat

def flushed (dev : VmwPrivate) (fb : Framebuffer) (mapped : Bool) (p : Par)
    (virtual vmalloc : ℕ → UInt8) : ℕ → UInt8 :=
  match vmwFbDirtyFlush dev mapped p with
  | none => virtual
  | some f => f.copy dev fb virtual vmalloc

/-- The pixel of the shadow buffer at `x` and `y` is dirty. -/
def Rect.Covers (r : Rect) (x y : ℕ) : Prop :=
  (r.x1.toNat ≤ x ∧ x < r.x2.toNat) ∧ r.y1.toNat ≤ y ∧ y < r.y2.toNat

/-- A copy with its clip inside the framebuffer, which writes pixels of the clip only and reads
    inside the shadow buffer. -/
structure Flush.Within (dev : VmwPrivate) (fb : Framebuffer) (f : Flush) : Prop where
  clip : (f.clip.x1.toNat : ℤ) = f.x1 ∧ (f.clip.x2.toNat : ℤ) = f.x1 + f.w ∧
    (f.clip.y1.toNat : ℤ) = f.y1 ∧ (f.clip.y2.toNat : ℤ) = f.y1 + f.h
  inside : f.clip.x2.toNat ≤ fb.width.toNat ∧ f.clip.y2.toNat ≤ fb.height.toNat
  written : ∀ i k, i < f.h.toNat → k < f.len → ∃ x y b,
    (f.clip.x1.toNat ≤ x ∧ x < f.clip.x2.toNat) ∧ (f.clip.y1.toNat ≤ y ∧ y < f.clip.y2.toNat) ∧
      b < 4 ∧ f.dstPtr + i * fb.pitch.toNat + k = y * fb.pitch.toNat + x * 4 + b
  read : ∀ i k, i < f.h.toNat → k < f.len →
    f.srcPtr + i * (lineLength dev).toNat + k < (fbSize dev).toNat

/-- A flush stays within its bounds, and the pixels of the framebuffer whose shadow pixels are
    dirty have their bytes. -/
structure FlushGood (dev : VmwPrivate) (fb : Framebuffer) (mapped : Bool) (p : Par) : Prop where
  within : ∀ f, vmwFbDirtyFlush dev mapped p = some f → f.Within dev fb
  equal : p.active = true → mapped = true → ∀ virtual vmalloc : ℕ → UInt8,
    ∀ x < fb.width.toNat, ∀ y < fb.height.toNat,
      p.dirty.Covers (x + p.fbX.toNat) (y + p.fbY.toNat) → ∀ b < 4,
        flushed dev fb mapped p virtual vmalloc (y * fb.pitch.toNat + x * 4 + b) =
          vmalloc ((y + p.fbY.toNat) * (lineLength dev).toNat + (x + p.fbX.toNat) * 4 + b)

/-- Nothing is copied along an axis: the dirty pixels end before the window, or they start where
    the clamp `fb + (fb + size)` ends. -/
def AxisQuiet (dirty1 dirty2 fb size : UInt32) : Prop :=
  dirty2.toNat ≤ max dirty1.toNat fb.toNat ∨ 2 * fb.toNat + size.toNat ≤ dirty1.toNat

/-- The window is at the edge, or the dirty pixels end with it. -/
def AxisInside (dirty2 fb size : UInt32) : Prop :=
  fb.toNat = 0 ∨ dirty2.toNat ≤ fb.toNat + size.toNat

/-- Before which column or row of the shadow buffer the window is dirty. -/
def axisEnd (dirty2 fb size : UInt32) : ℕ := min dirty2.toNat (fb.toNat + size.toNat)

structure AxisFits (dirty1 dirty2 fb size : UInt32) : Prop where
  ordered : dirty1 ≤ dirty2
  dirty : dirty2.toNat < 2 ^ 31
  window : fb.toNat + size.toNat < 2 ^ 31

def axisStart (dirty1 fb : UInt32) : ℕ := max dirty1.toNat fb.toNat - fb.toNat

def axisStop (dirty2 fb size : UInt32) : ℕ := min dirty2.toNat (2 * fb.toNat + size.toNat) - fb.toNat

section Axis
variable {dirty1 dirty2 fb size : UInt32}

theorem AxisFits.start_eq (h : AxisFits dirty1 dirty2 fb size) :
    dstStart dirty1 fb = axisStart dirty1 fb := by
  obtain ⟨ho, hd, hw⟩ := h
  rw [UInt32.le_iff_toNat_le] at ho
  have hs : s32 (z dirty1 - z fb) = z dirty1 - z fb := by
    apply s32_of_mem <;> unfold z <;> norm_num [s32Min, s32Max] <;> omega
  rw [dstStart, hs]
  unfold axisStart z
  omega

theorem AxisFits.end_eq (h : AxisFits dirty1 dirty2 fb size) :
    dstEnd dirty2 fb size = min (z dirty2 - z fb) (z fb + z size) := by
  obtain ⟨-, hd, hw⟩ := h
  have hs : s32 (z dirty2 - z fb) = z dirty2 - z fb := by
    apply s32_of_mem <;> unfold z <;> norm_num [s32Min, s32Max] <;> omega
  have hm : s32 (z fb + z size) = z fb + z size := by
    apply s32_of_mem <;> unfold z <;> norm_num [s32Min, s32Max] <;> omega
  rw [dstEnd, hs, hm]

theorem AxisFits.length_eq (h : AxisFits dirty1 dirty2 fb size) :
    dstLength dirty1 dirty2 fb size =
      ((axisStop dirty2 fb size - axisStart dirty1 fb : ℕ) : ℤ) := by
  have hstart := h.start_eq
  have hend := h.end_eq
  obtain ⟨ho, hd, hw⟩ := h
  rw [UInt32.le_iff_toNat_le] at ho
  have hs : s32 (dstEnd dirty2 fb size - dstStart dirty1 fb) =
      dstEnd dirty2 fb size - dstStart dirty1 fb := by
    rw [hend, hstart]
    apply s32_of_mem <;> unfold z axisStart <;> norm_num [s32Min, s32Max] <;> omega
  rw [dstLength, hs, hend, hstart]
  unfold axisStop axisStart z
  omega

theorem quiet_iff : AxisQuiet dirty1 dirty2 fb size ↔
    axisStop dirty2 fb size ≤ axisStart dirty1 fb := by
  unfold AxisQuiet axisStop axisStart
  omega

theorem AxisFits.end_stop (h : AxisFits dirty1 dirty2 fb size)
    (hq : ¬AxisQuiet dirty1 dirty2 fb size) : dstEnd dirty2 fb size = axisStop dirty2 fb size := by
  rw [h.end_eq]
  rw [quiet_iff] at hq
  unfold axisStop axisStart z at *
  omega

theorem AxisInside.end_eq (h : AxisInside dirty2 fb size)
    (hq : ¬AxisQuiet dirty1 dirty2 fb size) :
    axisEnd dirty2 fb size = axisStop dirty2 fb size + fb.toNat := by
  unfold AxisQuiet at hq
  unfold AxisInside at h
  unfold axisEnd axisStop
  omega

variable (dirty1 dirty2 fb) in
theorem covers_iff {x : ℕ} (hx : x < size.toNat) :
    (dirty1.toNat ≤ x + fb.toNat ∧ x + fb.toNat < dirty2.toNat) ↔
      axisStart dirty1 fb ≤ x ∧ x < axisStop dirty2 fb size := by
  unfold axisStart axisStop
  omega

end Axis

section Configured
variable {dev : VmwPrivate} {var var' : FbVar} {p : Par}

theorem min_toNat_le (a b : UInt32) : (min a b).toNat ≤ b.toNat := by
  change (if a ≤ b then a else b).toNat ≤ b.toNat
  split_ifs with h
  · exact UInt32.le_iff_toNat_le.1 h
  · exact le_rfl

theorem maxWidth_le (dev : VmwPrivate) : (maxWidth dev).toNat ≤ 2048 := min_toNat_le dev.fbMaxWidth 2048

theorem maxHeight_le (dev : VmwPrivate) : (maxHeight dev).toNat ≤ 2048 := min_toNat_le dev.fbMaxHeight 2048

theorem lineLength_toNat : (lineLength dev).toNat = 4 * (maxWidth dev).toNat := by
  have hm := maxWidth_le dev
  have h32 : (32 : UInt32).toNat = 32 := rfl
  have h8 : (8 : UInt32).toNat = 8 := rfl
  have hmul : (maxWidth dev * 32).toNat = (maxWidth dev).toNat * 32 := by
    rw [UInt32.toNat_mul, h32]
    exact Nat.mod_eq_of_lt (by omega)
  rw [lineLength, UInt32.toNat_div, hmul, h8]
  omega

theorem fbSize_toNat : (fbSize dev).toNat =
    4 * ((maxWidth dev).toNat * (maxHeight dev).toNat) := by
  have hmul := Nat.mul_le_mul (maxWidth_le dev) (maxHeight_le dev)
  rw [fbSize, UInt32.toNat_mul, lineLength_toNat, Nat.mul_assoc]
  exact Nat.mod_eq_of_lt (by omega)

/-- A framebuffer is no larger than the shadow buffer, and its rows have no gaps. -/
structure FbFits (dev : VmwPrivate) (fb : Framebuffer) : Prop where
  pitch : fb.pitch.toNat = 4 * fb.width.toNat
  width : fb.width.toNat ≤ 2048
  height : fb.height.toNat ≤ 2048

/-- What a configuration that `vmw_fb_check_var` lets through has passed. -/
structure Checked (dev : VmwPrivate) (var' : FbVar) : Prop where
  bpp : var'.bitsPerPixel = 32
  width : var'.xoffset + var'.xres ≤ maxWidth dev
  height : var'.yoffset + var'.yres ≤ maxHeight dev

theorem checkVar_checked (h : vmwFbCheckVar dev var = .ok var') : Checked dev var' := by
  unfold vmwFbCheckVar at h
  by_cases hbpp : var.bitsPerPixel = 32
  swap
  · rw [if_pos hbpp] at h
    cases h
  rw [if_neg (not_not.2 hbpp)] at h
  dsimp only at h
  by_cases hgeom : maxWidth dev < (setColours var).xoffset + (setColours var).xres ∨
      maxHeight dev < (setColours var).yoffset + (setColours var).yres
  · rw [if_pos hgeom] at h
    cases h
  rw [if_neg hgeom, ite_eq_iff] at h
  rw [not_or, UInt32.not_lt, UInt32.not_lt] at hgeom
  obtain ⟨-, h⟩ | ⟨-, h⟩ := h
  · cases h
    exact ⟨hbpp, hgeom.1, hgeom.2⟩
  · cases h

end Configured

theorem u32_natCast (n : ℕ) : (u32 (n : ℤ)).toNat = n % 2 ^ 32 := by
  unfold u32
  omega

theorem u32_products (a b c d : ℤ) : u32 (u32 a * b + u32 c * d) = u32 (a * b + c * d) := by
  simp [u32, Int.add_emod, Int.mul_emod]

theorem u16_natCast (n : ℕ) : (u16 (n : ℤ)).toNat = n % 2 ^ 16 := by
  have h : (((n : ℤ) % 0x10000).toNat) = n % 2 ^ 16 := by omega
  rw [u16, h, UInt16.toNat_ofNat', Nat.mod_mod]

section Copy
variable {dev : VmwPrivate} {fb : Framebuffer} {p : Par}

def copyOf (dev : VmwPrivate) (fb : Framebuffer) (p : Par) : Flush :=
  let x1 := axisStart p.dirty.x1 p.fbX
  let y1 := axisStart p.dirty.y1 p.fbY
  let x2 := axisStop p.dirty.x2 p.fbX fb.width
  let y2 := axisStop p.dirty.y2 p.fbY fb.height
  { x1 := x1
    y1 := y1
    w := (x2 - x1 : ℕ)
    h := (y2 - y1 : ℕ)
    dstPtr := (y1 * fb.pitch.toNat + x1 * 4) % 2 ^ 32
    srcPtr := ((y1 + p.fbY.toNat) * (lineLength dev).toNat + (x1 + p.fbX.toNat) * 4) % 2 ^ 32
    len := (x2 - x1) * 4 % 2 ^ 32
    clip := ⟨u16 x1, u16 y1, u16 x2, u16 y2⟩ }

theorem takeDirty_copy (hx : AxisFits p.dirty.x1 p.dirty.x2 p.fbX fb.width)
    (hy : AxisFits p.dirty.y1 p.dirty.y2 p.fbY fb.height)
    (hqx : ¬AxisQuiet p.dirty.x1 p.dirty.x2 p.fbX fb.width)
    (hqy : ¬AxisQuiet p.dirty.y1 p.dirty.y2 p.fbY fb.height) :
    takeDirty dev fb p = some (copyOf dev fb p) := by
  have hwx := hx.length_eq
  have hwy := hy.length_eq
  have hx' := hqx
  have hy' := hqy
  rw [quiet_iff] at hx' hy'
  unfold takeDirty
  dsimp only
  rw [if_pos (by omega), hwx, hwy, hx.start_eq, hy.start_eq, hx.end_stop hqx, hy.end_stop hqy,
    u32_products]
  have h4 : cpp.toNat = 4 := rfl
  unfold copyOf
  simp only [z, h4, ← Nat.cast_add, ← Nat.cast_mul, u32_natCast]

end Copy

theorem copyRows_at (dst src : ℕ → UInt8) (a b : ℕ) (g : Shape) (hw : g.w ≤ g.dstStride)
    {h i k : ℕ} (hi : i < h) (hk : k < g.w) :
    copyRows dst src a b g h (a + i * g.dstStride + k) = src (b + i * g.srcStride + k) := by
  induction h with
  | zero => omega
  | succ h ih =>
    rw [copyRows, copyRow]
    by_cases hlast : i = h
    · subst hlast
      rw [if_pos (by omega)]
      congr 1
      omega
    · -- an earlier row ends before the last one starts
      have hmul : (i + 1) * g.dstStride ≤ h * g.dstStride :=
        Nat.mul_le_mul_right _ (by omega)
      rw [Nat.add_mul, Nat.one_mul] at hmul
      rw [if_neg (by omega)]
      exact ih (by omega)

theorem rows_offset (x y f g i M : ℕ) :
    (y + g) * (4 * M) + (x + f) * 4 + i * (4 * M) = 4 * ((y + i + g) * M + (x + f)) := by
  ring

section Flushes
variable {dev : VmwPrivate} {fb : Framebuffer} {p : Par}

structure Copies (fb : Framebuffer) (p : Par) : Prop where
  x : AxisFits p.dirty.x1 p.dirty.x2 p.fbX fb.width
  y : AxisFits p.dirty.y1 p.dirty.y2 p.fbY fb.height
  busyX : ¬AxisQuiet p.dirty.x1 p.dirty.x2 p.fbX fb.width
  busyY : ¬AxisQuiet p.dirty.y1 p.dirty.y2 p.fbY fb.height

/-- The copy in `ℕ`, with its end inside the framebuffer. -/
structure InFb (fb : Framebuffer) (p : Par) : Prop where
  startX : axisStart p.dirty.x1 p.fbX < axisStop p.dirty.x2 p.fbX fb.width
  startY : axisStart p.dirty.y1 p.fbY < axisStop p.dirty.y2 p.fbY fb.height
  stopX : axisStop p.dirty.x2 p.fbX fb.width ≤ fb.width.toNat
  stopY : axisStop p.dirty.y2 p.fbY fb.height ≤ fb.height.toNat

theorem Copies.inFb (h : Copies fb p) (hx : axisStop p.dirty.x2 p.fbX fb.width ≤ fb.width.toNat)
    (hy : axisStop p.dirty.y2 p.fbY fb.height ≤ fb.height.toNat) : InFb fb p := by
  have hbx := h.busyX
  have hby := h.busyY
  rw [quiet_iff, not_le] at hbx hby
  exact ⟨hbx, hby, hx, hy⟩

theorem Copies.copy (h : Copies fb p) : takeDirty dev fb p = some (copyOf dev fb p) :=
  takeDirty_copy h.x h.y h.busyX h.busyY

theorem Copies.flush (h : Copies fb p) (hset : p.setFb = some fb) (ha : p.active = true) :
    vmwFbDirtyFlush dev true p = some (copyOf dev fb p) := by
  simp [vmwFbDirtyFlush, hset, ha, h.copy]

variable (dev fb p) in
theorem copyOf_clip : (copyOf dev fb p).x1 = axisStart p.dirty.x1 p.fbX ∧
    (copyOf dev fb p).y1 = axisStart p.dirty.y1 p.fbY ∧
    (copyOf dev fb p).w = (axisStop p.dirty.x2 p.fbX fb.width -
      axisStart p.dirty.x1 p.fbX : ℕ) ∧
    (copyOf dev fb p).h = (axisStop p.dirty.y2 p.fbY fb.height -
      axisStart p.dirty.y1 p.fbY : ℕ) := ⟨rfl, rfl, rfl, rfl⟩

theorem InFb.dstPtr_eq (h : InFb fb p) (hf : FbFits dev fb) : (copyOf dev fb p).dstPtr =
    axisStart p.dirty.y1 p.fbY * fb.pitch.toNat + axisStart p.dirty.x1 p.fbX * 4 := by
  obtain ⟨hx, hy, hsx, hsy⟩ := h
  obtain ⟨hp, hw, hh⟩ := hf
  have hmul : axisStart p.dirty.y1 p.fbY * fb.pitch.toNat ≤ 2048 * 8192 :=
    Nat.mul_le_mul (by omega) (by omega)
  exact Nat.mod_eq_of_lt (by omega)

theorem InFb.len_eq (h : InFb fb p) (hf : FbFits dev fb) : (copyOf dev fb p).len =
    (axisStop p.dirty.x2 p.fbX fb.width - axisStart p.dirty.x1 p.fbX) * 4 := by
  obtain ⟨hx, hy, hsx, hsy⟩ := h
  obtain ⟨hp, hw, hh⟩ := hf
  exact Nat.mod_eq_of_lt (by omega)

theorem InFb.clip_eq (h : InFb fb p) (hf : FbFits dev fb) :
    (copyOf dev fb p).clip.x1.toNat = axisStart p.dirty.x1 p.fbX ∧
    (copyOf dev fb p).clip.x2.toNat = axisStop p.dirty.x2 p.fbX fb.width ∧
    (copyOf dev fb p).clip.y1.toNat = axisStart p.dirty.y1 p.fbY ∧
    (copyOf dev fb p).clip.y2.toNat = axisStop p.dirty.y2 p.fbY fb.height := by
  obtain ⟨hx, hy, hsx, hsy⟩ := h
  obtain ⟨hp, hw, hh⟩ := hf
  simp only [copyOf, u16_natCast]
  omega

theorem InFb.copied (h : InFb fb p) (hf : FbFits dev fb) (virtual vmalloc : ℕ → UInt8) {x y b : ℕ}
    (hx : axisStart p.dirty.x1 p.fbX ≤ x ∧ x < axisStop p.dirty.x2 p.fbX fb.width)
    (hy : axisStart p.dirty.y1 p.fbY ≤ y ∧ y < axisStop p.dirty.y2 p.fbY fb.height) (hb : b < 4) :
    (copyOf dev fb p).copy dev fb virtual vmalloc (y * fb.pitch.toNat + x * 4 + b) =
      vmalloc ((copyOf dev fb p).srcPtr + (y - axisStart p.dirty.y1 p.fbY) *
        (lineLength dev).toNat + ((x - axisStart p.dirty.x1 p.fbX) * 4 + b)) := by
  have hdst := h.dstPtr_eq hf
  have hlen := h.len_eq hf
  obtain ⟨hsx, hsy, hwx, hwy⟩ := h
  have hat : y * fb.pitch.toNat + x * 4 + b = (copyOf dev fb p).dstPtr +
      (y - axisStart p.dirty.y1 p.fbY) * fb.pitch.toNat +
        ((x - axisStart p.dirty.x1 p.fbX) * 4 + b) := by
    obtain ⟨j, rfl⟩ := Nat.exists_eq_add_of_le hy.1
    rw [hdst, Nat.add_sub_cancel_left, Nat.add_mul]
    omega
  rw [hat]
  refine copyRows_at virtual vmalloc _ _ ⟨fb.pitch.toNat, (lineLength dev).toNat, _⟩ ?_ ?_ ?_
  · change (copyOf dev fb p).len ≤ fb.pitch.toNat
    have hp := hf.pitch
    omega
  · change _ < (((_ - _ : ℕ) : ℤ)).toNat
    rw [Int.toNat_natCast]
    omega
  · change _ < (copyOf dev fb p).len
    omega

def SourceOk (dev : VmwPrivate) (fb : Framebuffer) (p : Par) : Prop :=
  (axisStop p.dirty.y2 p.fbY fb.height + p.fbY.toNat - 1) * (maxWidth dev).toNat +
      (axisStop p.dirty.x2 p.fbX fb.width + p.fbX.toNat) ≤
    (maxWidth dev).toNat * (maxHeight dev).toNat

theorem SourceOk.row_le (hs : SourceOk dev fb p) {x y : ℕ}
    (hx : x ≤ axisStop p.dirty.x2 p.fbX fb.width)
    (hy : y < axisStop p.dirty.y2 p.fbY fb.height) :
    4 * ((y + p.fbY.toNat) * (maxWidth dev).toNat + (x + p.fbX.toNat)) ≤ (fbSize dev).toNat := by
  unfold SourceOk at hs
  have hmul : (y + p.fbY.toNat) * (maxWidth dev).toNat ≤
      (axisStop p.dirty.y2 p.fbY fb.height + p.fbY.toNat - 1) * (maxWidth dev).toNat :=
    Nat.mul_le_mul_right _ (by omega)
  rw [fbSize_toNat]
  omega

theorem SourceOk.srcPtr_eq (hs : SourceOk dev fb p) (h : InFb fb p) :
    (copyOf dev fb p).srcPtr =
      (axisStart p.dirty.y1 p.fbY + p.fbY.toNat) * (lineLength dev).toNat +
        (axisStart p.dirty.x1 p.fbX + p.fbX.toNat) * 4 := by
  have hrow := hs.row_le h.startX.le h.startY
  have hlt := (fbSize dev).toNat_lt
  have hoff := rows_offset (axisStart p.dirty.x1 p.fbX) (axisStart p.dirty.y1 p.fbY)
    p.fbX.toNat p.fbY.toNat 0 (maxWidth dev).toNat
  rw [Nat.zero_mul, Nat.add_zero, Nat.add_zero] at hoff
  unfold copyOf
  dsimp only
  rw [lineLength_toNat, hoff]
  exact Nat.mod_eq_of_lt (by omega)

theorem InFb.within (h : InFb fb p) (hf : FbFits dev fb) (hs : SourceOk dev fb p) :
    (copyOf dev fb p).Within dev fb := by
  have hdst := h.dstPtr_eq hf
  have hlen := h.len_eq hf
  have hsrc := hs.srcPtr_eq h
  have hclip := h.clip_eq hf
  have hx := h.startX
  have hy := h.startY
  have hrows : ((copyOf dev fb p).h).toNat =
      axisStop p.dirty.y2 p.fbY fb.height - axisStart p.dirty.y1 p.fbY := Int.toNat_natCast _
  constructor
  case clip =>
    have hends := copyOf_clip dev fb p
    omega
  case inside =>
    have hsx := h.stopX
    have hsy := h.stopY
    omega
  case written =>
    intro i k hi hk
    refine ⟨axisStart p.dirty.x1 p.fbX + k / 4, axisStart p.dirty.y1 p.fbY + i, k % 4,
      by omega, by omega, by omega, ?_⟩
    rw [hdst, Nat.add_mul]
    omega
  case read =>
    intro i k hi hk
    have hrow := hs.row_le (x := axisStop p.dirty.x2 p.fbX fb.width) le_rfl
      (show axisStart p.dirty.y1 p.fbY + i < axisStop p.dirty.y2 p.fbY fb.height by omega)
    have hoff := rows_offset (axisStart p.dirty.x1 p.fbX) (axisStart p.dirty.y1 p.fbY)
      p.fbX.toNat p.fbY.toNat i (maxWidth dev).toNat
    rw [← lineLength_toNat, ← hsrc] at hoff
    omega

theorem InFb.equal (h : InFb fb p) (hf : FbFits dev fb) (hs : SourceOk dev fb p)
    (virtual vmalloc : ℕ → UInt8) {x y b : ℕ} (hx : x < fb.width.toNat)
    (hy : y < fb.height.toNat) (hc : p.dirty.Covers (x + p.fbX.toNat) (y + p.fbY.toNat))
    (hb : b < 4) :
    (copyOf dev fb p).copy dev fb virtual vmalloc (y * fb.pitch.toNat + x * 4 + b) =
      vmalloc ((y + p.fbY.toNat) * (lineLength dev).toNat + (x + p.fbX.toNat) * 4 + b) := by
  have hcx := (covers_iff _ _ _ hx).1 hc.1
  have hcy := (covers_iff _ _ _ hy).1 hc.2
  rw [h.copied hf virtual vmalloc hcx hcy hb, hs.srcPtr_eq h]
  congr 1
  obtain ⟨i, rfl⟩ := Nat.exists_eq_add_of_le hcy.1
  obtain ⟨j, rfl⟩ := Nat.exists_eq_add_of_le hcx.1
  rw [Nat.add_sub_cancel_left, Nat.add_sub_cancel_left]
  ring

theorem FlushGood.inFb (hg : FlushGood dev fb true p) (hset : p.setFb = some fb)
    (ha : p.active = true) (h : Copies fb p) : InFb fb p := by
  have hw := hg.within _ (h.flush hset ha)
  obtain ⟨hx1, hx2, hy1, hy2⟩ := hw.clip
  obtain ⟨hix, hiy⟩ := hw.inside
  have hends := copyOf_clip dev fb p
  have hbx := h.busyX
  have hby := h.busyY
  rw [quiet_iff] at hbx hby
  exact h.inFb (by omega) (by omega)

theorem flushed_copy (hset : p.setFb = some fb) (ha : p.active = true) (h : Copies fb p)
    (virtual vmalloc : ℕ → UInt8) :
    flushed dev fb true p virtual vmalloc = (copyOf dev fb p).copy dev fb virtual vmalloc := by
  simp [flushed, vmwFbDirtyFlush, hset, ha, h.copy]

theorem FlushGood.source (hg : FlushGood dev fb true p) (hset : p.setFb = some fb)
    (ha : p.active = true) (hf : FbFits dev fb) (h : Copies fb p) : SourceOk dev fb p := by
  have hin := hg.inFb hset ha h
  have hx := hin.startX
  have hy := hin.startY
  have hsx := hin.stopX
  have hsy := hin.stopY
  have hcx := (covers_iff p.dirty.x1 p.dirty.x2 p.fbX (lt_of_lt_of_le hx hsx)).2 ⟨le_rfl, hx⟩
  have hcy := (covers_iff p.dirty.y1 p.dirty.y2 p.fbY (lt_of_lt_of_le hy hsy)).2 ⟨le_rfl, hy⟩
  have hsrc : (copyOf dev fb p).srcPtr =
      (axisStart p.dirty.y1 p.fbY + p.fbY.toNat) * (lineLength dev).toNat +
        (axisStart p.dirty.x1 p.fbX + p.fbX.toNat) * 4 := by
    by_contra hne
    -- a shadow buffer that tells the two places apart
    have heq := hg.equal ha rfl (fun _ => 0)
      (fun o => if o = (copyOf dev fb p).srcPtr then 1 else 0) _ (lt_of_lt_of_le hx hsx) _
      (lt_of_lt_of_le hy hsy) ⟨hcx, hcy⟩ 0 (by omega)
    rw [flushed_copy hset ha h, hin.copied hf _ _ ⟨le_rfl, hx⟩ ⟨le_rfl, hy⟩ (by omega),
      Nat.sub_self, Nat.sub_self, if_pos (by omega), if_neg (by omega)] at heq
    exact absurd heq (by decide)
  have hlen := hin.len_eq hf
  have hrows : ((copyOf dev fb p).h).toNat =
      axisStop p.dirty.y2 p.fbY fb.height - axisStart p.dirty.y1 p.fbY := Int.toNat_natCast _
  have hread := (hg.within _ (h.flush hset ha)).read
    (axisStop p.dirty.y2 p.fbY fb.height - axisStart p.dirty.y1 p.fbY - 1)
    ((axisStop p.dirty.x2 p.fbX fb.width - axisStart p.dirty.x1 p.fbX) * 4 - 1)
    (by omega) (by omega)
  have hoff := rows_offset (axisStart p.dirty.x1 p.fbX) (axisStart p.dirty.y1 p.fbY)
    p.fbX.toNat p.fbY.toNat
    (axisStop p.dirty.y2 p.fbY fb.height - axisStart p.dirty.y1 p.fbY - 1) (maxWidth dev).toNat
  have hlast : axisStart p.dirty.y1 p.fbY +
      (axisStop p.dirty.y2 p.fbY fb.height - axisStart p.dirty.y1 p.fbY - 1) + p.fbY.toNat =
        axisStop p.dirty.y2 p.fbY fb.height + p.fbY.toNat - 1 := by omega
  rw [← lineLength_toNat, ← hsrc, hlast] at hoff
  rw [fbSize_toNat] at hread
  unfold SourceOk
  omega

end Flushes

def sampleDevice : VmwPrivate := ⟨2360, 1770, 0x4000000⟩

def sampleVar : FbVar :=
  ⟨1024, 768, 2048, 1770, 0, 0, 32, ⟨16, 8⟩, ⟨8, 8⟩, ⟨0, 8⟩, ⟨0, 0⟩⟩

end Vmwgfx.FbdevFlush

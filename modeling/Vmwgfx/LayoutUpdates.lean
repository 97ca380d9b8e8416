import Vmwgfx.ExecbufState

set_option autoImplicit false

/-!
# Layouts that user space asks for

`vmw_kms_update_layout_ioctl` with `vmw_kms_check_display_memory` and the first loop of
`vmw_du_update_layout`. The array of `drm_vmw_rect` is turned in place into one of `drm_rect`,
whose members are all signed.
-/
namespace Vmwgfx.LayoutUpdates
open ExecbufState (Errno)

def erange : Errno := .other 34

def efault : Errno := .other 14

def intMax : ℕ := 2 ^ 31 - 1

/-- `struct drm_vmw_rect`; `x` and `y` are signed. -/
structure VmwRect where
  x : BitVec 32
  y : BitVec 32
  w : BitVec 32
  h : BitVec 32
  deriving DecidableEq, Repr

/-- `struct drm_rect`, with signed members. -/
structure DrmRect where
  x1 : BitVec 32
  y1 : BitVec 32
  x2 : BitVec 32
  y2 : BitVec 32
  deriving DecidableEq, Repr

def drmRectWidth (r : DrmRect) : BitVec 32 := r.x2 - r.x1

def drmRectHeight (r : DrmRect) : BitVec 32 := r.y2 - r.y1

/-- The limits of a device: whether its display units are screen targets,
    `SVGA_CAP_NO_BB_RESTRICTION`, `max_width` and `max_height` of `struct drm_mode_config`, which
    are signed, and the limits of `struct vmw_private`, which are not. -/
structure LayoutDev where
  screenTarget : Bool
  noBbRestriction : Bool
  maxWidth : BitVec 32
  maxHeight : BitVec 32
  stduMaxWidth : BitVec 32
  stduMaxHeight : BitVec 32
  primBbMem : BitVec 32
  deriving DecidableEq, Repr

def toDrmRect (r : VmwRect) : DrmRect := ⟨r.x, r.y, r.x + r.w, r.y + r.h⟩

/-- The body of the loop over the rectangles. The sum of an `int32_t` and a `uint32_t` is
    unsigned, and so is its comparison with `INT_MAX`. -/
def verifyRect (dev : LayoutDev) (r : VmwRect) : Except Errno DrmRect :=
  if intMax < (r.x + r.w).toNat ∨ intMax < (r.y + r.h).toNat then .error erange
  else
    let d := toDrmRect r
    if d.x1.toInt < 0 ∨ d.y1.toInt < 0 ∨ dev.maxWidth.toInt < d.x2.toInt ∨
        dev.maxHeight.toInt < d.y2.toInt then
      .error .einval
    else .ok d

def verifyRects (dev : LayoutDev) : List VmwRect → Except Errno (List DrmRect)
  | [] => .ok []
  | r :: rs =>
    match verifyRect dev r with
    | .error e => .error e
    | .ok d =>
      match verifyRects dev rs with
      | .error e => .error e
      | .ok ds => .ok (d :: ds)

/-- The sums of `vmw_kms_check_display_memory`: `x2` and `y2` of the bounding box, and the pixels. -/
structure Totals where
  boxX2 : BitVec 32
  boxY2 : BitVec 32
  totalPixels : BitVec 64
  deriving DecidableEq, Repr

/-- The larger one of two `int`. -/
def maxInt (a b : BitVec 32) : BitVec 32 := if a.toInt < b.toInt then b else a

/-- A pass of the loop. The width is an `int`, compared with a `uint32_t` and converted to
    `u64`. -/
def addRect (dev : LayoutDev) (t : Totals) (r : DrmRect) : Except Errno Totals :=
  if dev.screenTarget = true ∧ (dev.stduMaxWidth.toNat < (drmRectWidth r).toNat ∨
      dev.stduMaxHeight.toNat < (drmRectHeight r).toNat) then
    .error .einval
  else
    .ok ⟨maxInt t.boxX2 r.x2, maxInt t.boxY2 r.y2, t.totalPixels +
      (drmRectWidth r).signExtend 64 * (drmRectHeight r).signExtend 64⟩

def addRects (dev : LayoutDev) : Totals → List DrmRect → Except Errno Totals
  | t, [] => .ok t
  | t, r :: rs =>
    match addRect dev t r with
    | .error e => .error e
    | .ok u => addRects dev u rs

def vmwKmsCheckDisplayMemory (dev : LayoutDev) (rects : List DrmRect) : Except Errno Unit :=
  match addRects dev ⟨0, 0, 0⟩ rects with
  | .error e => .error e
  | .ok t =>
    if dev.primBbMem.toNat < (t.totalPixels * 4).toNat then .error .einval
    else if !dev.screenTarget || !dev.noBbRestriction then
      if dev.primBbMem.toNat < (t.boxX2.signExtend 64 * t.boxY2.signExtend 64 * 4).toNat then
        .error .einval
      else .ok ()
    else .ok ()

/-- What `struct vmw_display_unit` has of the layout. -/
structure DisplayUnit where
  unit : ℕ
  prefWidth : BitVec 32
  prefHeight : BitVec 32
  prefActive : Bool
  guiX : BitVec 32
  guiY : BitVec 32
  deriving DecidableEq, Repr

def updateUnit (rects : List DrmRect) (du : DisplayUnit) : DisplayUnit :=
  match rects[du.unit]? with
  | some r => ⟨du.unit, drmRectWidth r, drmRectHeight r, true, r.x1, r.y1⟩
  | none => ⟨du.unit, 800, 600, false, 0, 0⟩

def vmwDuUpdateLayout (rects : List DrmRect) (units : List DisplayUnit) : List DisplayUnit :=
  units.map (updateUnit rects)

/-- What `copy_from_user` leaves in the zeroed array: `rects_size` has 32 bits. -/
def copyFromUser (rects : List VmwRect) : List VmwRect :=
  let copied := rects.length * 16 % 2 ^ 32 / 16
  rects.take copied ++ List.replicate (rects.length - copied) ⟨0, 0, 0, 0⟩

/-- `vmw_kms_update_layout_ioctl` for the rectangles of user space; `kcalloc` says for which
    numbers of rectangles there is memory, `copied` whether they can be read. -/
def vmwKmsUpdateLayoutIoctl (dev : LayoutDev) (kcalloc : ℕ → Bool) (copied : Bool)
    (rects : List VmwRect) (units : List DisplayUnit) : Except Errno Unit × List DisplayUnit :=
  if rects.length = 0 then (.ok (), vmwDuUpdateLayout [⟨0, 0, 800, 600⟩] units)
  else if !kcalloc rects.length then (.error .enomem, units)
  else if !copied then (.error efault, units)
  else
    match verifyRects dev (copyFromUser rects) with
    | .error e => (.error e, units)
    | .ok ds =>
      match vmwKmsCheckDisplayMemory dev ds with
      | .error e => (.error e, units)
      | .ok () => (.ok (), vmwDuUpdateLayout ds units)

/-- A rectangle of user space and what has become of it. -/
structure RectGood (dev : LayoutDev) (r : VmwRect) (d : DrmRect) : Prop where
  left : 0 ≤ d.x1.toInt
  width : d.x1.toInt ≤ d.x2.toInt
  right : d.x2.toInt ≤ dev.maxWidth.toInt
  top : 0 ≤ d.y1.toInt
  height : d.y1.toInt ≤ d.y2.toInt
  bottom : d.y2.toInt ≤ dev.maxHeight.toInt
  exactWidth : d.x2.toInt - d.x1.toInt = r.w.toNat
  exactHeight : d.y2.toInt - d.y1.toInt = r.h.toNat
  target : dev.screenTarget = true → r.w.toNat ≤ dev.stduMaxWidth.toNat ∧
    r.h.toNat ≤ dev.stduMaxHeight.toNat

def rectMem (r : VmwRect) : ℕ := r.w.toNat * r.h.toNat * 4

def extent (l : List (BitVec 32)) : ℤ := l.foldl (fun m a => max m a.toInt) 0

structure LayoutGood (dev : LayoutDev) (rs : List VmwRect) (ds : List DrmRect) : Prop where
  rects : List.Forall₂ (RectGood dev) rs ds
  memory : (rs.map rectMem).sum ≤ dev.primBbMem.toNat
  bounding : ¬ (dev.screenTarget = true ∧ dev.noBbRestriction = true) →
    extent (ds.map (·.x2)) * extent (ds.map (·.y2)) * 4 ≤ dev.primBbMem.toNat

/-- The sums that the checks rest on do not wrap around. -/
structure NoWrap (rs : List VmwRect) : Prop where
  corners : ∀ r ∈ rs, r.x.toNat + r.w.toNat < 2 ^ 32 ∧ r.y.toNat + r.h.toNat < 2 ^ 32
  memory : (rs.map rectMem).sum < 2 ^ 64

theorem toInt_eq_toNat {v : BitVec 32} (h : v.toNat < 2 ^ 31) : v.toInt = v.toNat :=
  BitVec.toInt_eq_toNat_of_lt (by omega)

theorem toNat_lt_of_nonneg {v : BitVec 32} (h : 0 ≤ v.toInt) : v.toNat < 2 ^ 31 := by
  rw [BitVec.toInt_eq_toNat_cond] at h
  have hv := v.isLt
  split at h <;> omega

theorem signExtend_toNat {v : BitVec 32} (h : v.toNat < 2 ^ 31) :
    (v.signExtend 64).toNat = v.toNat := by
  have hmsb : v.msb = false := by
    rw [BitVec.msb_eq_decide, decide_eq_false_iff_not]
    omega
  rw [BitVec.signExtend_eq_setWidth_of_msb_false hmsb, BitVec.toNat_setWidth]
  exact Nat.mod_eq_of_lt (by omega)

/-- A product of two numbers that are not negative, converted to `u64`, is exact, and so are
    four of them. -/
theorem mul_signExtend_toNat {v w : BitVec 32} (hv : v.toNat < 2 ^ 31) (hw : w.toNat < 2 ^ 31) :
    (v.signExtend 64 * w.signExtend 64).toNat = v.toNat * w.toNat ∧
      v.toNat * w.toNat * 4 < 2 ^ 64 := by
  have hle : v.toNat * w.toNat ≤ (2 ^ 31 - 1) * (2 ^ 31 - 1) :=
    Nat.mul_le_mul (by omega) (by omega)
  constructor
  · rw [BitVec.toNat_mul, signExtend_toNat hv, signExtend_toNat hw]
    exact Nat.mod_eq_of_lt (by omega)
  · omega

theorem maxInt_toInt (a b : BitVec 32) : (maxInt a b).toInt = max a.toInt b.toInt := by
  unfold maxInt
  split
  · rename_i hlt
    exact (max_eq_right hlt.le).symm
  · rename_i hlt
    exact (max_eq_left (not_lt.mp hlt)).symm

theorem le_foldl_max (l : List (BitVec 32)) (m : ℤ) :
    m ≤ l.foldl (fun m a => max m a.toInt) m := by
  induction l generalizing m with
  | nil => exact le_refl m
  | cons a l ih => exact (le_max_left m a.toInt).trans (ih _)

@[simp]
theorem drmRectWidth_toDrmRect (r : VmwRect) : drmRectWidth (toDrmRect r) = r.w := by
  simp only [drmRectWidth, toDrmRect]
  rw [BitVec.add_comm, BitVec.add_sub_cancel]

@[simp]
theorem drmRectHeight_toDrmRect (r : VmwRect) : drmRectHeight (toDrmRect r) = r.h := by
  simp only [drmRectHeight, toDrmRect]
  rw [BitVec.add_comm, BitVec.add_sub_cancel]

/-- What `verifyRect` has found out about a rectangle. -/
structure Verified (dev : LayoutDev) (r : VmwRect) : Prop where
  right : (r.x + r.w).toNat ≤ intMax
  bottom : (r.y + r.h).toNat ≤ intMax
  left : 0 ≤ r.x.toInt
  top : 0 ≤ r.y.toInt
  maxWidth : (r.x + r.w).toInt ≤ dev.maxWidth.toInt
  maxHeight : (r.y + r.h).toInt ≤ dev.maxHeight.toInt

theorem verifyRect_ok {dev : LayoutDev} {r : VmwRect} {d : DrmRect}
    (h : verifyRect dev r = .ok d) : d = toDrmRect r ∧ Verified dev r := by
  simp only [verifyRect] at h
  split at h
  · cases h
  · rename_i hmax
    split at h
    · cases h
    · rename_i hlim
      push Not at hmax hlim
      cases h
      exact ⟨rfl, hmax.1, hmax.2, hlim.1, hlim.2.1, hlim.2.2.1, hlim.2.2.2⟩

theorem verifyRects_ok {dev : LayoutDev} {rs : List VmwRect} {ds : List DrmRect}
    (h : verifyRects dev rs = .ok ds) :
    ds = rs.map toDrmRect ∧ ∀ r ∈ rs, Verified dev r := by
  induction rs generalizing ds with
  | nil =>
    cases h
    exact ⟨rfl, fun r hr => absurd hr List.not_mem_nil⟩
  | cons r rs ih =>
    simp only [verifyRects] at h
    split at h
    · cases h
    · rename_i d hd
      split at h
      · cases h
      · rename_i ds' hds
        cases h
        obtain ⟨rfl, hr⟩ := verifyRect_ok hd
        obtain ⟨rfl, hrs⟩ := ih hds
        refine ⟨rfl, fun s hs => ?_⟩
        rcases List.mem_cons.mp hs with rfl | hs
        · exact hr
        · exact hrs s hs

theorem addRect_ok {dev : LayoutDev} {t u : Totals} {r : VmwRect}
    (h : addRect dev t (toDrmRect r) = .ok u) :
    (dev.screenTarget = true → r.w.toNat ≤ dev.stduMaxWidth.toNat ∧
      r.h.toNat ≤ dev.stduMaxHeight.toNat) ∧
    u = ⟨maxInt t.boxX2 (r.x + r.w), maxInt t.boxY2 (r.y + r.h),
      t.totalPixels + r.w.signExtend 64 * r.h.signExtend 64⟩ := by
  simp only [addRect, drmRectWidth_toDrmRect, drmRectHeight_toDrmRect] at h
  split at h
  · cases h
  · rename_i hstdu
    push Not at hstdu
    cases h
    exact ⟨hstdu, rfl⟩

/-- The sums of the second loop, and what it has found out about the rectangles. -/
structure Summed (dev : LayoutDev) (rs : List VmwRect) (t u : Totals) : Prop where
  target : dev.screenTarget = true → ∀ r ∈ rs, r.w.toNat ≤ dev.stduMaxWidth.toNat ∧
    r.h.toNat ≤ dev.stduMaxHeight.toNat
  boxX2 : u.boxX2.toInt =
    ((rs.map toDrmRect).map (·.x2)).foldl (fun m a => max m a.toInt) t.boxX2.toInt
  boxY2 : u.boxY2.toInt =
    ((rs.map toDrmRect).map (·.y2)).foldl (fun m a => max m a.toInt) t.boxY2.toInt
  totalPixels : (∀ r ∈ rs, r.w.toNat < 2 ^ 31 ∧ r.h.toNat < 2 ^ 31) →
    (u.totalPixels * 4).toNat = ((t.totalPixels * 4).toNat + (rs.map rectMem).sum) % 2 ^ 64

theorem addRects_ok {dev : LayoutDev} {rs : List VmwRect} {t u : Totals}
    (h : addRects dev t (rs.map toDrmRect) = .ok u) : Summed dev rs t u := by
  induction rs generalizing t with
  | nil =>
    cases h
    refine ⟨fun _ r hr => absurd hr List.not_mem_nil, rfl, rfl, fun _ => ?_⟩
    simp only [List.map_nil, List.sum_nil, Nat.add_zero]
    exact (Nat.mod_eq_of_lt (BitVec.isLt _)).symm
  | cons r rs ih =>
    simp only [List.map_cons, addRects] at h
    split at h
    · cases h
    · rename_i v hv
      obtain ⟨hstdu, rfl⟩ := addRect_ok hv
      have hs := ih h
      constructor
      · intro hst s hmem
        rcases List.mem_cons.mp hmem with rfl | hmem
        · exact hstdu hst
        · exact hs.target hst s hmem
      · rw [hs.boxX2, maxInt_toInt]
        rfl
      · rw [hs.boxY2, maxInt_toInt]
        rfl
      · intro hsmall
        obtain ⟨hw, hh⟩ := hsmall r List.mem_cons_self
        obtain ⟨hmul, -⟩ := mul_signExtend_toNat hw hh
        rw [hs.totalPixels fun s hmem => hsmall s (List.mem_cons_of_mem _ hmem)]
        simp only [List.map_cons, List.sum_cons, rectMem, BitVec.toNat_mul, BitVec.toNat_add]
        rw [BitVec.toNat_mul] at hmul
        rw [hmul]
        change (_ % 2 ^ 64 * 4 % 2 ^ 64 + _) % 2 ^ 64 = (_ * 4 % 2 ^ 64 + _) % 2 ^ 64
        omega

theorem vmwKmsCheckDisplayMemory_ok {dev : LayoutDev} {rs : List VmwRect}
    (h : vmwKmsCheckDisplayMemory dev (rs.map toDrmRect) = .ok ()) :
    ∃ u : Totals, Summed dev rs ⟨0, 0, 0⟩ u ∧
      (u.totalPixels * 4).toNat ≤ dev.primBbMem.toNat ∧
      (¬ (dev.screenTarget = true ∧ dev.noBbRestriction = true) →
        (u.boxX2.signExtend 64 * u.boxY2.signExtend 64 * 4).toNat ≤ dev.primBbMem.toNat) := by
  simp only [vmwKmsCheckDisplayMemory] at h
  split at h
  · cases h
  · rename_i u hu
    refine ⟨u, addRects_ok hu, ?_⟩
    split at h
    · cases h
    · rename_i hmem
      refine ⟨not_lt.mp hmem, fun hbb => ?_⟩
      rw [if_pos] at h
      · split at h
        · cases h
        · rename_i hbox
          exact not_lt.mp hbox
      · simpa [imp_iff_not_or] using hbb

/-- What all the checks have found out about the rectangles. -/
structure Checked (dev : LayoutDev) (rs : List VmwRect) (u : Totals) : Prop where
  verified : ∀ r ∈ rs, Verified dev r
  summed : Summed dev rs ⟨0, 0, 0⟩ u
  memory : (u.totalPixels * 4).toNat ≤ dev.primBbMem.toNat
  bounding : ¬ (dev.screenTarget = true ∧ dev.noBbRestriction = true) →
    (u.boxX2.signExtend 64 * u.boxY2.signExtend 64 * 4).toNat ≤ dev.primBbMem.toNat

theorem side_exact_iff {x w : BitVec 32} (hx : 0 ≤ x.toInt) (hend : (x + w).toNat ≤ intMax) :
    (x + w).toInt - x.toInt = w.toNat ↔ x.toNat + w.toNat < 2 ^ 32 := by
  have hxlt := toNat_lt_of_nonneg hx
  have hendlt : (x + w).toNat < 2 ^ 31 := by
    simp only [intMax] at hend
    omega
  rw [toInt_eq_toNat hxlt, toInt_eq_toNat hendlt, BitVec.toNat_add]
  have hw := w.isLt
  omega

theorem Verified.small {dev : LayoutDev} {r : VmwRect} (hr : Verified dev r)
    (hx : r.x.toNat + r.w.toNat < 2 ^ 32) (hy : r.y.toNat + r.h.toNat < 2 ^ 32) :
    r.w.toNat < 2 ^ 31 ∧ r.h.toNat < 2 ^ 31 := by
  have hright := hr.right
  have hbottom := hr.bottom
  rw [BitVec.toNat_add, Nat.mod_eq_of_lt hx] at hright
  rw [BitVec.toNat_add, Nat.mod_eq_of_lt hy] at hbottom
  simp only [intMax] at hright hbottom
  omega

theorem Verified.good {dev : LayoutDev} {r : VmwRect} (hr : Verified dev r)
    (hx : r.x.toNat + r.w.toNat < 2 ^ 32) (hy : r.y.toNat + r.h.toNat < 2 ^ 32)
    (htarget : dev.screenTarget = true → r.w.toNat ≤ dev.stduMaxWidth.toNat ∧
      r.h.toNat ≤ dev.stduMaxHeight.toNat) : RectGood dev r (toDrmRect r) := by
  have hw := (side_exact_iff hr.left hr.right).mpr hx
  have hh := (side_exact_iff hr.top hr.bottom).mpr hy
  have hwidth : r.x.toInt ≤ (r.x + r.w).toInt := by omega
  have hheight : r.y.toInt ≤ (r.y + r.h).toInt := by omega
  exact ⟨hr.left, hwidth, hr.maxWidth, hr.top, hheight, hr.maxHeight, hw, hh, htarget⟩

theorem Checked.extent_le {dev : LayoutDev} {rs : List VmwRect} {u : Totals}
    (hu : Checked dev rs u)
    (hbb : ¬ (dev.screenTarget = true ∧ dev.noBbRestriction = true)) :
    extent ((rs.map toDrmRect).map (·.x2)) * extent ((rs.map toDrmRect).map (·.y2)) * 4 ≤
      dev.primBbMem.toNat := by
  have hx : u.boxX2.toInt = extent ((rs.map toDrmRect).map (·.x2)) := hu.summed.boxX2
  have hy : u.boxY2.toInt = extent ((rs.map toDrmRect).map (·.y2)) := hu.summed.boxY2
  have hx0 : 0 ≤ u.boxX2.toInt := by
    rw [hx]
    exact le_foldl_max _ 0
  have hy0 : 0 ≤ u.boxY2.toInt := by
    rw [hy]
    exact le_foldl_max _ 0
  have hxlt := toNat_lt_of_nonneg hx0
  have hylt := toNat_lt_of_nonneg hy0
  obtain ⟨hmul, hfour⟩ := mul_signExtend_toNat hxlt hylt
  have hbox := hu.bounding hbb
  rw [BitVec.toNat_mul, hmul] at hbox
  change u.boxX2.toNat * u.boxY2.toNat * 4 % 2 ^ 64 ≤ _ at hbox
  rw [Nat.mod_eq_of_lt hfour] at hbox
  rw [← hx, ← hy, toInt_eq_toNat hxlt, toInt_eq_toNat hylt]
  exact_mod_cast hbox

theorem Checked.good {dev : LayoutDev} {rs : List VmwRect} {u : Totals}
    (hu : Checked dev rs u) (hwrap : NoWrap rs) : LayoutGood dev rs (rs.map toDrmRect) := by
  constructor
  · rw [List.forall₂_map_right_iff, List.forall₂_same]
    intro r hr
    obtain ⟨hx, hy⟩ := hwrap.corners r hr
    exact (hu.verified r hr).good hx hy fun hst => hu.summed.target hst r hr
  · have hsum := hu.summed.totalPixels fun r hr =>
      (hu.verified r hr).small (hwrap.corners r hr).1 (hwrap.corners r hr).2
    have hmem := hu.memory
    have hlt := hwrap.memory
    change _ = (0 * 4 % 2 ^ 64 + _) % 2 ^ 64 at hsum
    omega
  · exact hu.extent_le

theorem Checked.noWrap {dev : LayoutDev} {rs : List VmwRect} {u : Totals}
    (hu : Checked dev rs u) (hgood : LayoutGood dev rs (rs.map toDrmRect)) : NoWrap rs := by
  constructor
  · have hrects := hgood.rects
    rw [List.forall₂_map_right_iff, List.forall₂_same] at hrects
    intro r hr
    have hv := hu.verified r hr
    exact ⟨(side_exact_iff hv.left hv.right).mp (hrects r hr).exactWidth,
      (side_exact_iff hv.top hv.bottom).mp (hrects r hr).exactHeight⟩
  · have hmem := hgood.memory
    have hprim := dev.primBbMem.isLt
    omega

/-- The largest object of `kmalloc` is far smaller than 4 GiB. -/
def KmallocBounded (kcalloc : ℕ → Bool) : Prop := ∀ n, kcalloc n = true → n * 16 < 2 ^ 32

/-- The layout of an accepted call: without rectangles it is the default one. -/
def layoutOf (rects : List VmwRect) : List DrmRect :=
  if rects.length = 0 then [⟨0, 0, 800, 600⟩] else rects.map toDrmRect

theorem copyFromUser_eq {rects : List VmwRect} (h : rects.length * 16 < 2 ^ 32) :
    copyFromUser rects = rects := by
  have hcopied : rects.length * 16 % 2 ^ 32 / 16 = rects.length := by omega
  simp only [copyFromUser, hcopied]
  rw [List.take_length, Nat.sub_self, List.replicate_zero, List.append_nil]

theorem vmwKmsUpdateLayoutIoctl_ok {dev : LayoutDev} {kcalloc : ℕ → Bool} {copied : Bool}
    {rects : List VmwRect} {units after : List DisplayUnit} (hk : KmallocBounded kcalloc)
    (h : vmwKmsUpdateLayoutIoctl dev kcalloc copied rects units = (.ok (), after)) :
    after = vmwDuUpdateLayout (layoutOf rects) units ∧
    (rects = [] ∨ ∃ u : Totals, Checked dev rects u) := by
  by_cases hlen : rects.length = 0
  · simp only [vmwKmsUpdateLayoutIoctl, if_pos hlen, Prod.mk.injEq, true_and] at h
    refine ⟨?_, .inl (List.length_eq_zero_iff.mp hlen)⟩
    rw [← h, layoutOf, if_pos hlen]
  · simp only [vmwKmsUpdateLayoutIoctl, if_neg hlen] at h
    split at h
    · cases h
    · rename_i halloc
      have hcopy : copyFromUser rects = rects :=
        copyFromUser_eq (hk rects.length (by simpa using halloc))
      rw [hcopy] at h
      split at h
      · cases h
      · split at h
        · cases h
        · rename_i ds hds
          obtain ⟨rfl, hverified⟩ := verifyRects_ok hds
          split at h
          · cases h
          · rename_i hmem
            cases h
            obtain ⟨u, hsummed, hprim, hbb⟩ := vmwKmsCheckDisplayMemory_ok hmem
            refine ⟨?_, .inr ⟨u, hverified, hsummed, hprim, hbb⟩⟩
            rw [layoutOf, if_neg hlen]

theorem layoutGood_nil (dev : LayoutDev) : LayoutGood dev [] ([].map toDrmRect) := by
  refine ⟨List.Forall₂.nil, Nat.zero_le _, fun _ => ?_⟩
  exact Int.natCast_nonneg _

theorem noWrap_nil : NoWrap [] :=
  ⟨fun _ hr => absurd hr List.not_mem_nil, Nat.two_pow_pos 64⟩

/-- An accepted layout is what the units get, and it is within the limits of the device if and
    only if none of the sums has wrapped around. -/
theorem accepted_layout_good_iff {dev : LayoutDev} {kcalloc : ℕ → Bool} {copied : Bool}
    {rects : List VmwRect} {units after : List DisplayUnit} (hk : KmallocBounded kcalloc)
    (hcall : vmwKmsUpdateLayoutIoctl dev kcalloc copied rects units = (.ok (), after)) :
    after = vmwDuUpdateLayout (layoutOf rects) units ∧
    (LayoutGood dev rects (rects.map toDrmRect) ↔ NoWrap rects) := by
  obtain ⟨hafter, hchecked⟩ := vmwKmsUpdateLayoutIoctl_ok hk hcall
  refine ⟨hafter, ?_⟩
  rcases hchecked with rfl | ⟨u, hu⟩
  · exact ⟨fun _ => noWrap_nil, fun _ => layoutGood_nil dev⟩
  · exact ⟨hu.noWrap, hu.good⟩

/-- A device with screen objects, 8192 pixels each way and 128 MiB for the primary. -/
def sampleDev : LayoutDev := ⟨false, false, 8192, 8192, 0, 0, 0x08000000⟩

def sampleKcalloc (n : ℕ) : Bool := decide (n * 16 ≤ 2 ^ 22)

theorem sampleKcalloc_bounded : KmallocBounded sampleKcalloc := by
  intro n hn
  have hle : n * 16 ≤ 2 ^ 22 := of_decide_eq_true hn
  omega

def sampleUnits : List DisplayUnit := [⟨0, 800, 600, false, 0, 0⟩, ⟨1, 800, 600, false, 0, 0⟩]

theorem side_by_side_good :
    vmwKmsUpdateLayoutIoctl sampleDev sampleKcalloc true
        [⟨0, 0, 640, 480⟩, ⟨640, 0, 800, 600⟩] sampleUnits =
      (.ok (), [⟨0, 640, 480, true, 0, 0⟩, ⟨1, 800, 600, true, 640, 0⟩]) ∧
    LayoutGood sampleDev [⟨0, 0, 640, 480⟩, ⟨640, 0, 800, 600⟩]
      ([⟨0, 0, 640, 480⟩, ⟨640, 0, 800, 600⟩].map toDrmRect) := by
  have hcall : vmwKmsUpdateLayoutIoctl sampleDev sampleKcalloc true
        [⟨0, 0, 640, 480⟩, ⟨640, 0, 800, 600⟩] sampleUnits =
      (.ok (), [⟨0, 640, 480, true, 0, 0⟩, ⟨1, 800, 600, true, 640, 0⟩]) := by
    decide +kernel
  refine ⟨hcall, (accepted_layout_good_iff sampleKcalloc_bounded hcall).2.mpr ⟨?_, ?_⟩⟩
  · decide +kernel
  · decide +kernel

/-- The right end of the rectangle is at 2^32, and the check against `INT_MAX` sees 0. -/
theorem wrapped_end_accepted :
    vmwKmsUpdateLayoutIoctl sampleDev sampleKcalloc true
        [⟨1, 1, 0xffffffff, 0xffffffff⟩] sampleUnits =
      (.ok (), [⟨0, 0xffffffff, 0xffffffff, true, 1, 1⟩, ⟨1, 800, 600, false, 0, 0⟩]) ∧
    ¬ LayoutGood sampleDev [⟨1, 1, 0xffffffff, 0xffffffff⟩]
      ([⟨1, 1, 0xffffffff, 0xffffffff⟩].map toDrmRect) := by
  constructor
  · decide +kernel
  · intro hgood
    have hrect := List.forall₂_cons.mp hgood.rects
    have hwidth := hrect.1.width
    revert hwidth
    decide +kernel

end Vmwgfx.LayoutUpdates

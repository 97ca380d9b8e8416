import Vmwgfx.LayoutUpdates
import Vmwgfx.Signed32

set_option autoImplicit false

/-!
# Clips of a framebuffer on the display units

`vmw_kms_helper_dirty`: each clip is moved to the coordinates of each display unit that shows the
framebuffer, cut to the unit's mode and given to the callback `dirty->clip`.
-/
namespace Vmwgfx.KmsClips
open ExecbufState (Errno)
open LayoutUpdates (VmwRect)
open Signed32

/-- `struct drm_clip_rect`, of unsigned shorts. -/
structure DrmClipRect where
  x1 : BitVec 16
  y1 : BitVec 16
  x2 : BitVec 16
  y2 : BitVec 16
  deriving DecidableEq, Repr

inductive Clip where
  | clip (c : DrmClipRect)
  | vclip (v : VmwRect)
  deriving DecidableEq, Repr

/-- The two arrays, of which the caller passes one: `clips_ptr` and `vclips_ptr` count from it. -/
inductive Clips where
  | clips (p : ℤ → DrmClipRect)
  | vclips (p : ℤ → VmwRect)

def Clips.get : Clips → ℤ → Clip
  | .clips p, i => .clip (p i)
  | .vclips p, i => .vclip (p i)

/-- A display unit: what its primary plane shows, the origin of its CRTC in the framebuffer and
    the size of its mode. -/
structure DisplayUnit where
  unit : ℕ
  fb : Option ℕ
  crtcX : BitVec 32
  crtcY : BitVec 32
  hdisplay : BitVec 32
  vdisplay : BitVec 32
  deriving DecidableEq, Repr

/-- The coordinates in `struct vmw_kms_dirty`, all of them `s32`. -/
structure Dirty where
  fbX : ℤ
  fbY : ℤ
  unitX1 : ℤ
  unitY1 : ℤ
  unitX2 : ℤ
  unitY2 : ℤ
  deriving DecidableEq, Repr

/-- `dest_x` and `dest_y`. -/
structure Dest where
  x : BitVec 32
  y : BitVec 32
  deriving DecidableEq, Repr

/-- A `clip` is of unsigned shorts; the width and the height of a `vclip` are unsigned and its
    sums are converted back. -/
def startDirty (dest : Dest) (u : DisplayUnit) : Clip → Dirty
  | .clip c =>
    { fbX := c.x1.toNat
      fbY := c.y1.toNat
      unitX1 := s32 (c.x1.toNat + dest.x.toInt - u.crtcX.toInt)
      unitY1 := s32 (c.y1.toNat + dest.y.toInt - u.crtcY.toInt)
      unitX2 := s32 (c.x2.toNat + dest.x.toInt - u.crtcX.toInt)
      unitY2 := s32 (c.y2.toNat + dest.y.toInt - u.crtcY.toInt) }
  | .vclip v =>
    { fbX := v.x.toInt
      fbY := v.y.toInt
      unitX1 := s32 (v.x.toInt + dest.x.toInt - u.crtcX.toInt)
      unitY1 := s32 (v.y.toInt + dest.y.toInt - u.crtcY.toInt)
      unitX2 := s32 (v.x.toInt + v.w.toNat + dest.x.toInt - u.crtcX.toInt)
      unitY2 := s32 (v.y.toInt + v.h.toNat + dest.y.toInt - u.crtcY.toInt) }

def outside (u : DisplayUnit) (d : Dirty) : Prop :=
  u.hdisplay.toInt ≤ d.unitX1 ∨ u.vdisplay.toInt ≤ d.unitY1 ∨ d.unitX2 ≤ 0 ∨ d.unitY2 ≤ 0

instance (u : DisplayUnit) (d : Dirty) : Decidable (outside u d) := by
  unfold outside
  infer_instance

/-- "Clip right and bottom to crtc limits", then left and top. -/
def cutDirty (u : DisplayUnit) (d : Dirty) : Dirty :=
  let clipLeft := min d.unitX1 0
  let clipTop := min d.unitY1 0
  { fbX := s32 (d.fbX - clipLeft)
    fbY := s32 (d.fbY - clipTop)
    unitX1 := s32 (d.unitX1 - clipLeft)
    unitY1 := s32 (d.unitY1 - clipTop)
    unitX2 := min d.unitX2 u.hdisplay.toInt
    unitY2 := min d.unitY2 u.vdisplay.toInt }

/-- The coordinates that `dirty->clip` is called with, if it is called. -/
def clipCall (dest : Dest) (u : DisplayUnit) (c : Clip) : Option Dirty :=
  let d := startDirty dest u c
  if outside u d then none else some (cutDirty u d)

/-- A closure over a state `σ`. `reserve` is `vmw_fifo_reserve` with the `memset`, where
    `fifo_reserve_size` is not zero, and the reset of `num_hits`. The number at `clip` is the
    loop's counter `i`, which the callbacks of the driver do not read. -/
structure DirtyOps (σ : Type) where
  reserve : σ → DisplayUnit → Option σ
  clip : σ → DisplayUnit → ℕ → Dirty → σ
  fifoCommit : σ → DisplayUnit → σ

/-- What the loops run over: the clips with their number and increment and the offset. -/
structure DirtyArgs where
  clips : Clips
  dest : Dest
  numClips : BitVec 32
  increment : BitVec 32

/-- The clip at the counter `i`. -/
def DirtyArgs.clipAt (a : DirtyArgs) (i : ℕ) : Clip := a.clips.get (i * a.increment.toInt)

variable {σ : Type}

def clipStep (ops : DirtyOps σ) (a : DirtyArgs) (u : DisplayUnit) (s : σ) (i : ℕ) : σ :=
  match clipCall a.dest u (a.clipAt i) with
  | none => s
  | some d => ops.clip s u i d

def clipLoop (ops : DirtyOps σ) (a : DirtyArgs) (u : DisplayUnit) (s : σ) : σ :=
  (List.range a.numClips.toNat).foldl (clipStep ops a u) s

def unitLoop (ops : DirtyOps σ) (a : DirtyArgs) : List DisplayUnit → σ → Except Errno Unit × σ
  | [], s => (.ok (), s)
  | u :: us, s =>
    match ops.reserve s u with
    | none => (.error .enomem, s)
    | some s' => unitLoop ops a us (ops.fifoCommit (clipLoop ops a u s') u)

/-- The CRTC of the closure, or all CRTCs that show the framebuffer. -/
def dirtyUnits (crtcs : List DisplayUnit) (framebuffer : ℕ) : Option DisplayUnit → List DisplayUnit
  | some crtc => [crtc]
  | none => crtcs.filter fun u => u.fb = some framebuffer

def vmwKmsHelperDirty (ops : DirtyOps σ) (crtcs : List DisplayUnit) (framebuffer : ℕ)
    (crtc : Option DisplayUnit) (a : DirtyArgs) (s : σ) : Except Errno Unit × σ :=
  unitLoop ops a (dirtyUnits crtcs framebuffer crtc) s

/-- The calls of `dirty->clip` for a unit, each with the counter. -/
def unitCalls (a : DirtyArgs) (u : DisplayUnit) : List (ℕ × Dirty) :=
  (List.range a.numClips.toNat).filterMap fun i =>
    (clipCall a.dest u (a.clipAt i)).map fun d => (i, d)

theorem clipLoop_eq_foldl (ops : DirtyOps σ) (a : DirtyArgs) (u : DisplayUnit) (s : σ) :
    clipLoop ops a u s = (unitCalls a u).foldl (fun s d => ops.clip s u d.1 d.2) s := by
  unfold clipLoop unitCalls
  induction List.range a.numClips.toNat generalizing s with
  | nil => rfl
  | cons i is ih =>
    rw [List.foldl_cons, ih, clipStep]
    cases hcall : clipCall a.dest u (a.clipAt i) with
    | none => rw [List.filterMap_cons_none (by rw [hcall]; rfl)]
    | some d => rw [List.filterMap_cons_some (by rw [hcall]; rfl), List.foldl_cons]

/-- The units up to the first one without its reservation. -/
def reached (fifo : ℕ → Bool) : ℕ → List DisplayUnit → List DisplayUnit
  | _, [] => []
  | k, u :: us => if fifo k then u :: reached fifo (k + 1) us else []

/-- What one unit does of its own: it is committed exactly if the FIFO has space for it, adds one
    entry to a log, given by the unit, and leaves the closure `Clean` for the next one. -/
structure UnitwiseOps {β : Type} (ops : DirtyOps σ) (a : DirtyArgs) (fifo : ℕ → Bool)
    (log : σ → List (DisplayUnit × β)) (f : DisplayUnit → β) (Clean : σ → Prop) : Prop where
  reserve : ∀ s u, Clean s → ((ops.reserve s u).isSome ↔ fifo (log s).length)
  clean : ∀ s u t, Clean s → ops.reserve s u = some t → Clean (ops.fifoCommit (clipLoop ops a u t) u)
  log : ∀ s u t, Clean s → ops.reserve s u = some t →
    log (ops.fifoCommit (clipLoop ops a u t) u) = log s ++ [(u, f u)]

/-- It is enough to look at what is committed after all clips of a unit, where the reservation
    begins the closure anew. -/
theorem UnitwiseOps.of_commit {β : Type} {ops : DirtyOps σ} {a : DirtyArgs} {fifo : ℕ → Bool}
    {log : σ → List (DisplayUnit × β)} {f : DisplayUnit → β} {Clean : σ → Prop} (start : σ → σ)
    (hreserve : ∀ s u, ops.reserve s u = if fifo (log s).length then some (start s) else none)
    (hcommit : ∀ s u t, Clean s →
      t = ops.fifoCommit ((unitCalls a u).foldl (fun s d => ops.clip s u d.1 d.2) (start s)) u →
        Clean t ∧ log t = log s ++ [(u, f u)]) :
    UnitwiseOps ops a fifo log f Clean := by
  have hunit : ∀ s u t, Clean s → ops.reserve s u = some t →
      Clean (ops.fifoCommit (clipLoop ops a u t) u) ∧
        log (ops.fifoCommit (clipLoop ops a u t) u) = log s ++ [(u, f u)] := by
    intro s u t hs ht
    rw [hreserve, Option.ite_none_right_eq_some, Option.some.injEq] at ht
    rw [clipLoop_eq_foldl, ← ht.2]
    exact hcommit s u _ hs rfl
  constructor
  · intro s u _
    rw [hreserve]
    cases fifo (log s).length <;> simp
  · exact fun s u t hs ht => (hunit s u t hs ht).1
  · exact fun s u t hs ht => (hunit s u t hs ht).2

theorem UnitwiseOps.unitLoop {β : Type} {ops : DirtyOps σ} {a : DirtyArgs} {fifo : ℕ → Bool}
    {log : σ → List (DisplayUnit × β)} {f : DisplayUnit → β} {Clean : σ → Prop}
    (h : UnitwiseOps ops a fifo log f Clean) (us : List DisplayUnit) (s : σ) (hs : Clean s) :
    log (unitLoop ops a us s).2 =
      log s ++ (reached fifo (log s).length us).map fun u => (u, f u) := by
  induction us generalizing s with
  | nil => exact (List.append_nil _).symm
  | cons u us ih =>
    have hsome := h.reserve s u hs
    rw [KmsClips.unitLoop, reached]
    cases hres : ops.reserve s u with
    | none =>
      rw [hres] at hsome
      rw [if_neg fun hf => absurd (hsome.mpr hf) Bool.false_ne_true]
      exact (List.append_nil _).symm
    | some t =>
      rw [hres] at hsome
      have hlog := h.log s u t hs hres
      change log (KmsClips.unitLoop ops a us (ops.fifoCommit (clipLoop ops a u t) u)).2 = _
      rw [ih _ (h.clean s u t hs hres), hlog, if_pos (hsome.mp rfl), List.length_append,
        List.append_assoc]
      rfl

/-- A clip along one axis: where it starts in the framebuffer, its edges relative to the CRTC over
    the integers, and the extent of the mode. -/
structure Span where
  fb : ℤ
  lo : ℤ
  hi : ℤ
  size : ℤ
  deriving DecidableEq, Repr

def spanX (dest : Dest) (u : DisplayUnit) : Clip → Span
  | .clip c => ⟨c.x1.toNat, c.x1.toNat + dest.x.toInt - u.crtcX.toInt,
      c.x2.toNat + dest.x.toInt - u.crtcX.toInt, u.hdisplay.toInt⟩
  | .vclip v => ⟨v.x.toInt, v.x.toInt + dest.x.toInt - u.crtcX.toInt,
      v.x.toInt + v.w.toNat + dest.x.toInt - u.crtcX.toInt, u.hdisplay.toInt⟩

def spanY (dest : Dest) (u : DisplayUnit) : Clip → Span
  | .clip c => ⟨c.y1.toNat, c.y1.toNat + dest.y.toInt - u.crtcY.toInt,
      c.y2.toNat + dest.y.toInt - u.crtcY.toInt, u.vdisplay.toInt⟩
  | .vclip v => ⟨v.y.toInt, v.y.toInt + dest.y.toInt - u.crtcY.toInt,
      v.y.toInt + v.h.toNat + dest.y.toInt - u.crtcY.toInt, u.vdisplay.toInt⟩

namespace Span

/-- The interval of the clip and the one of the mode have a common point. -/
def Meets (s : Span) : Prop := max s.lo 0 < min s.hi s.size

instance (s : Span) : Decidable s.Meets := by
  unfold Meets
  infer_instance

def fbStart (s : Span) : ℤ := max s.lo 0 - (s.lo - s.fb)

/-- The two tests of the code, which see the edges wrapped. -/
def Passes (s : Span) : Prop := s32 s.lo < s.size ∧ 0 < s32 s.hi

instance (s : Span) : Decidable s.Passes := by
  unfold Passes
  infer_instance

/-- The near edge and the start in the framebuffer are in the range of `s32`, and a far edge past
    the mode is still past it when wrapped. -/
structure Exact (s : Span) : Prop where
  near : s32Min ≤ s.lo
  source : s.fb - min s.lo 0 ≤ s32Max
  far : s.size ≤ s.hi → s.size ≤ s32 s.hi

def Cut (s : Span) : Prop :=
  s32 (s.fb - min (s32 s.lo) 0) = s.fbStart ∧ s32 (s32 s.lo - min (s32 s.lo) 0) = max s.lo 0 ∧
    min (s32 s.hi) s.size = min s.hi s.size

structure InRange (s : Span) : Prop where
  fb_le : s32Min ≤ s.fb
  le_fb : s.fb ≤ s32Max
  size : s.size ≤ s32Max

theorem s32_sub_min (z : ℤ) : s32 (s32 z - min (s32 z) 0) = max (s32 z) 0 := by
  have hle := s32_le z
  rw [s32_of_mem] <;> unfold s32Min s32Max at * <;> omega

theorem cut_exact {s : Span} (hin : s.InRange) (hcut : s.Cut) : s.Exact := by
  obtain ⟨hsrc, hnear, hfar⟩ := hcut
  obtain ⟨hfb, hfb', hsize⟩ := hin
  rw [s32_sub_min] at hnear
  unfold fbStart at hsrc
  have hle := s32_le (s.fb - min (s32 s.lo) 0)
  rw [hsrc] at hle
  have hnear' : s32Min ≤ s.lo := by
    unfold s32Min s32Max s32 at *
    omega
  exact ⟨hnear', by omega, by omega⟩

theorem Exact.cut {s : Span} (hs : s.Exact) (hin : s.InRange) (hmeets : s.Meets) :
    s.Passes ∧ s.Cut := by
  obtain ⟨hnear, hsrc, hfar⟩ := hs
  obtain ⟨hfb, hfb', hsize⟩ := hin
  unfold Meets at hmeets
  have hlo : s32 s.lo = s.lo := s32_of_mem hnear (by omega)
  have hstart : s32 (s.fb - min s.lo 0) = s.fb - min s.lo 0 := s32_of_mem (by omega) hsrc
  have hhi : s.hi < s.size → s32 s.hi = s.hi := by
    intro h
    exact s32_of_mem (by unfold s32Min; omega) (by omega)
  unfold Passes Cut fbStart
  rw [s32_sub_min, hlo, hstart]
  exact ⟨⟨by omega, by omega⟩, by omega, rfl, by omega⟩

end Span

/-- The intersection of the moved clip with the mode, where it is not empty. -/
def exactCall (dest : Dest) (u : DisplayUnit) (c : Clip) : Option Dirty :=
  let h := spanX dest u c
  let v := spanY dest u c
  if h.Meets ∧ v.Meets then
    some ⟨h.fbStart, v.fbStart, max h.lo 0, max v.lo 0, min h.hi h.size, min v.hi v.size⟩
  else none

/-- A clip that meets the mode is within the range of the arithmetic, and one that does not meet
    it fails the tests. -/
structure CallExact (dest : Dest) (u : DisplayUnit) (c : Clip) : Prop where
  hit : (spanX dest u c).Meets → (spanY dest u c).Meets →
    (spanX dest u c).Exact ∧ (spanY dest u c).Exact
  miss : (spanX dest u c).Passes → (spanY dest u c).Passes →
    (spanX dest u c).Meets ∧ (spanY dest u c).Meets

theorem ushort_mem (v : BitVec 16) : s32Min ≤ (v.toNat : ℤ) ∧ (v.toNat : ℤ) ≤ s32Max := by
  have hlt := v.isLt
  unfold s32Min s32Max
  omega

theorem spanX_inRange (dest : Dest) (u : DisplayUnit) (c : Clip) : (spanX dest u c).InRange := by
  have hsize := (toInt_mem u.hdisplay).2
  cases c with
  | clip c =>
    obtain ⟨hle, hlt⟩ := ushort_mem c.x1
    exact ⟨hle, hlt, hsize⟩
  | vclip v => exact ⟨(toInt_mem v.x).1, (toInt_mem v.x).2, hsize⟩

theorem spanY_inRange (dest : Dest) (u : DisplayUnit) (c : Clip) : (spanY dest u c).InRange := by
  have hsize := (toInt_mem u.vdisplay).2
  cases c with
  | clip c =>
    obtain ⟨hle, hlt⟩ := ushort_mem c.y1
    exact ⟨hle, hlt, hsize⟩
  | vclip v => exact ⟨(toInt_mem v.y).1, (toInt_mem v.y).2, hsize⟩

theorem startDirty_eq (dest : Dest) (u : DisplayUnit) (c : Clip) :
    startDirty dest u c =
      ⟨(spanX dest u c).fb, (spanY dest u c).fb, s32 (spanX dest u c).lo, s32 (spanY dest u c).lo,
        s32 (spanX dest u c).hi, s32 (spanY dest u c).hi⟩ := by
  cases c <;> rfl

theorem spanX_size (dest : Dest) (u : DisplayUnit) (c : Clip) :
    (spanX dest u c).size = u.hdisplay.toInt := by
  cases c <;> rfl

theorem spanY_size (dest : Dest) (u : DisplayUnit) (c : Clip) :
    (spanY dest u c).size = u.vdisplay.toInt := by
  cases c <;> rfl

theorem not_outside_iff (dest : Dest) (u : DisplayUnit) (c : Clip) :
    ¬ outside u (startDirty dest u c) ↔ (spanX dest u c).Passes ∧ (spanY dest u c).Passes := by
  rw [startDirty_eq]
  simp only [outside, Span.Passes, spanX_size, spanY_size]
  omega

theorem clipCall_eq (dest : Dest) (u : DisplayUnit) (c : Clip) :
    clipCall dest u c =
      if (spanX dest u c).Passes ∧ (spanY dest u c).Passes then
        some (cutDirty u (startDirty dest u c)) else none := by
  unfold clipCall
  by_cases hpass : (spanX dest u c).Passes ∧ (spanY dest u c).Passes
  · rw [if_pos hpass, if_neg ((not_outside_iff dest u c).mpr hpass)]
  · rw [if_neg hpass, if_pos (not_not.mp (mt (not_outside_iff dest u c).mp hpass))]

theorem cutDirty_eq_iff (dest : Dest) (u : DisplayUnit) (c : Clip) :
    cutDirty u (startDirty dest u c) =
      ⟨(spanX dest u c).fbStart, (spanY dest u c).fbStart, max (spanX dest u c).lo 0,
        max (spanY dest u c).lo 0, min (spanX dest u c).hi (spanX dest u c).size,
        min (spanY dest u c).hi (spanY dest u c).size⟩ ↔
    (spanX dest u c).Cut ∧ (spanY dest u c).Cut := by
  rw [startDirty_eq]
  simp only [cutDirty, Dirty.mk.injEq, Span.Cut, spanX_size, spanY_size]
  tauto

/-- The code calls back with the exact intersection, if there is one, under these conditions and
    no weaker ones. -/
theorem clipCall_eq_exactCall_iff (dest : Dest) (u : DisplayUnit) (c : Clip) :
    clipCall dest u c = exactCall dest u c ↔ CallExact dest u c := by
  have hx := spanX_inRange dest u c
  have hy := spanY_inRange dest u c
  rw [clipCall_eq, exactCall]
  by_cases hmeets : (spanX dest u c).Meets ∧ (spanY dest u c).Meets
  · rw [if_pos hmeets]
    constructor
    · intro heq
      split_ifs at heq
      obtain ⟨hcutx, hcuty⟩ := (cutDirty_eq_iff dest u c).mp (Option.some.inj heq)
      exact ⟨fun _ _ => ⟨Span.cut_exact hx hcutx, Span.cut_exact hy hcuty⟩,
        fun _ _ => hmeets⟩
    · intro hexact
      obtain ⟨hex, hey⟩ := hexact.hit hmeets.1 hmeets.2
      obtain ⟨hpassx, hcutx⟩ := hex.cut hx hmeets.1
      obtain ⟨hpassy, hcuty⟩ := hey.cut hy hmeets.2
      rw [if_pos ⟨hpassx, hpassy⟩]
      exact congrArg some ((cutDirty_eq_iff dest u c).mpr ⟨hcutx, hcuty⟩)
  · rw [if_neg hmeets]
    constructor
    · intro heq
      split_ifs at heq with hpass
      exact ⟨fun h h' => absurd ⟨h, h'⟩ hmeets, fun h h' => absurd ⟨h, h'⟩ hpass⟩
    · intro hexact
      rw [if_neg fun hpass => hmeets (hexact.miss hpass.1 hpass.2)]

/-- The coordinates of an exact call have a positive width and height inside the mode. -/
def Inside (u : DisplayUnit) (d : Dirty) : Prop :=
  (0 ≤ d.unitX1 ∧ d.unitX1 < d.unitX2 ∧ d.unitX2 ≤ u.hdisplay.toInt) ∧
    (0 ≤ d.unitY1 ∧ d.unitY1 < d.unitY2 ∧ d.unitY2 ≤ u.vdisplay.toInt)

theorem exactCall_inside {dest : Dest} {u : DisplayUnit} {c : Clip} {d : Dirty}
    (h : exactCall dest u c = some d) : Inside u d := by
  simp only [exactCall] at h
  split_ifs at h with hmeets
  cases h
  unfold Span.Meets at hmeets
  simp only [Inside, ← spanX_size dest u c, ← spanY_size dest u c]
  omega

/-- The calls that each unit has had by its commit, and those of the unit under way. -/
structure CallLog where
  done : List (DisplayUnit × List (ℕ × Dirty))
  calls : List (ℕ × Dirty)
  deriving DecidableEq, Repr

/-- A closure that records its calls. `fifo k` tells whether the reservation for the unit at `k`
    succeeds. -/
def recordOps (fifo : ℕ → Bool) : DirtyOps CallLog where
  reserve s _ := if fifo s.done.length then some { s with calls := [] } else none
  clip s _ i d := { s with calls := s.calls ++ [(i, d)] }
  fifoCommit s u := { s with done := s.done ++ [(u, s.calls)] }

def dirtyCalls (fifo : ℕ → Bool) (crtcs : List DisplayUnit) (framebuffer : ℕ)
    (crtc : Option DisplayUnit) (a : DirtyArgs) : List (DisplayUnit × List (ℕ × Dirty)) :=
  (vmwKmsHelperDirty (recordOps fifo) crtcs framebuffer crtc a ⟨[], []⟩).2.done

def exactCalls (a : DirtyArgs) (u : DisplayUnit) : List (ℕ × Dirty) :=
  (List.range a.numClips.toNat).filterMap fun i =>
    (exactCall a.dest u (a.clipAt i)).map fun d => (i, d)

theorem recordOps_foldl (fifo : ℕ → Bool) (u : DisplayUnit) (s : CallLog)
    (calls : List (ℕ × Dirty)) :
    calls.foldl (fun s d => (recordOps fifo).clip s u d.1 d.2) s =
      { s with calls := s.calls ++ calls } := by
  induction calls generalizing s with
  | nil => rw [List.foldl_nil, List.append_nil]
  | cons d ds ih =>
    rw [List.foldl_cons, ih]
    simp only [recordOps, List.append_assoc, List.singleton_append]

theorem recordOps_unitwise (fifo : ℕ → Bool) (a : DirtyArgs) :
    UnitwiseOps (recordOps fifo) a fifo CallLog.done (unitCalls a) fun _ => True := by
  apply UnitwiseOps.of_commit fun s => { s with calls := [] }
  · exact fun _ _ => rfl
  · rintro s u t - rfl
    rw [recordOps_foldl]
    exact ⟨trivial, rfl⟩

theorem dirtyCalls_eq (fifo : ℕ → Bool) (crtcs : List DisplayUnit) (framebuffer : ℕ)
    (crtc : Option DisplayUnit) (a : DirtyArgs) :
    dirtyCalls fifo crtcs framebuffer crtc a =
      (reached fifo 0 (dirtyUnits crtcs framebuffer crtc)).map fun u => (u, unitCalls a u) :=
  (recordOps_unitwise fifo a).unitLoop _ _ trivial

theorem filterMap_tagged_eq_iff {α β : Type} (l : List α) (f g : α → Option β) :
    (l.filterMap fun i => (f i).map fun d => (i, d)) =
        (l.filterMap fun i => (g i).map fun d => (i, d)) ↔ ∀ i ∈ l, f i = g i := by
  constructor
  · intro heq i hi
    apply Option.ext
    intro d
    have hmem : (i, d) ∈ (l.filterMap fun i => (f i).map fun d => (i, d)) ↔
        (i, d) ∈ (l.filterMap fun i => (g i).map fun d => (i, d)) := by rw [heq]
    simpa [List.mem_filterMap, hi] using hmem
  · intro h
    apply List.filterMap_congr
    intro i hi
    rw [h i hi]

theorem unitCalls_eq_exactCalls_iff (a : DirtyArgs) (u : DisplayUnit) :
    unitCalls a u = exactCalls a u ↔
      ∀ i < a.numClips.toNat, CallExact a.dest u (a.clipAt i) := by
  unfold unitCalls exactCalls
  rw [filterMap_tagged_eq_iff]
  simp only [List.mem_range, clipCall_eq_exactCall_iff]

/-- The calls are the non-empty intersections and nothing else, all of them inside the modes. -/
structure CallsExact (fifo : ℕ → Bool) (crtcs : List DisplayUnit) (framebuffer : ℕ)
    (crtc : Option DisplayUnit) (a : DirtyArgs) : Prop where
  calls : dirtyCalls fifo crtcs framebuffer crtc a =
    (reached fifo 0 (dirtyUnits crtcs framebuffer crtc)).map fun u => (u, exactCalls a u)
  inside : ∀ p ∈ dirtyCalls fifo crtcs framebuffer crtc a, ∀ d ∈ p.2, Inside p.1 d.2

/-- The helper calls back with exact intersections if and only if, for each unit it reaches, the
    clips that meet the mode stay in the range of the arithmetic and those that do not meet it,
    empty and inverted ones among them, fail its tests. -/
theorem callsExact_iff (fifo : ℕ → Bool) (crtcs : List DisplayUnit) (framebuffer : ℕ)
    (crtc : Option DisplayUnit) (a : DirtyArgs) :
    CallsExact fifo crtcs framebuffer crtc a ↔
      ∀ u ∈ reached fifo 0 (dirtyUnits crtcs framebuffer crtc), ∀ i < a.numClips.toNat,
        CallExact a.dest u (a.clipAt i) := by
  constructor
  · intro h u hu
    have hcalls := h.calls
    rw [dirtyCalls_eq, List.map_inj_left] at hcalls
    exact (unitCalls_eq_exactCalls_iff a u).mp (Prod.mk.inj (hcalls u hu)).2
  · intro h
    have hcalls : dirtyCalls fifo crtcs framebuffer crtc a =
        (reached fifo 0 (dirtyUnits crtcs framebuffer crtc)).map fun u => (u, exactCalls a u) := by
      rw [dirtyCalls_eq, List.map_inj_left]
      intro u hu
      rw [(unitCalls_eq_exactCalls_iff a u).mpr (h u hu)]
    refine ⟨hcalls, ?_⟩
    intro p hp d hd
    rw [hcalls] at hp
    obtain ⟨u, _, rfl⟩ := List.mem_map.mp hp
    obtain ⟨i, _, hd⟩ := List.mem_filterMap.mp hd
    obtain ⟨e, he, rfl⟩ := Option.map_eq_some_iff.mp hd
    exact exactCall_inside he

/-- An inverted clip of a screen: it ends at 5, left of its start at 10. -/
def invertedArgs : DirtyArgs := ⟨.clips fun _ => ⟨10, 0, 5, 8⟩, ⟨0, 0⟩, 1, 1⟩

def sampleUnit : DisplayUnit := ⟨0, some 1, 0, 0, 640, 480⟩

theorem inverted_clip_called :
    ¬ CallsExact (fun _ => true) [sampleUnit] 1 none invertedArgs := by
  intro h
  have hinside := h.inside (sampleUnit, [(0, ⟨10, 0, 10, 0, 5, 8⟩)]) (by decide +kernel)
    (0, ⟨10, 0, 10, 0, 5, 8⟩) (List.mem_singleton.mpr rfl)
  exact absurd hinside.1.2.1 (by decide)

end Vmwgfx.KmsClips

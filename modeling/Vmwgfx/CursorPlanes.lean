import Vmwgfx.ScreenObjects
import Vmwgfx.Signed32

set_option autoImplicit false

/-!
# Cursor planes

`vmw_du_cursor_plane_atomic_check`, which decides on a new state of a cursor plane, and the
preparation and the update that follow when a state is accepted.
-/
namespace Vmwgfx.CursorPlanes
open ExecbufState (Errno)
open ScreenObjects (DrmPlaneState Rect int32 noScaling drmPlaneHelperCheckUpdate)
open Signed32

structure Surface where
  n : ℕ
  age : ℕ
  image : Option (ℕ → UInt8)

structure Buffer where
  n : ℕ
  bytes : ℕ → UInt8

/-- What backs a framebuffer: `bo` of `struct vmw_framebuffer` tells which. -/
inductive Backing where
  | surface (s : Surface)
  | buffer (b : Buffer)

structure CursorState where
  base : DrmPlaneState
  backing : Backing
  hotX : BitVec 32
  hotY : BitVec 32

/-- `drm_plane_state_src` and `drm_plane_state_dest`. -/
def planeSrc (state : DrmPlaneState) : Rect :=
  ⟨int32 state.srcX, int32 state.srcY, int32 (state.srcX + state.srcW),
    int32 (state.srcY + state.srcH)⟩

def planeDest (state : DrmPlaneState) : Rect :=
  ⟨state.crtcX, state.crtcY, int32 (state.crtcX + state.crtcW), int32 (state.crtcY + state.crtcH)⟩

/-- The call of the helper, which may be positioned and may be on a disabled CRTC. -/
def helperCheck (state : CursorState) : Except Errno Unit :=
  (drmPlaneHelperCheckUpdate state.base.fb (planeSrc state.base) (planeDest state.base)
    (planeDest state.base) noScaling noScaling true).map fun _ => ()

def stateSurface (state : CursorState) : Option Surface :=
  match state.backing with
  | .surface s => some s
  | .buffer _ => none

/-- The two tests after the helper's, both of which only replace `ret`. -/
def driverChecks (state : CursorState) (ret : Except Errno Unit) : Except Errno Unit :=
  let ret := if state.base.crtcW ≠ 64 ∨ state.base.crtcH ≠ 64 then .error .einval else ret
  match stateSurface state with
  | none => ret
  | some s => if s.image.isNone then .error .einval else ret

/-- Without a framebuffer the cursor is turned off. The return after the helper is taken when the
    helper has returned zero. -/
def vmwDuCursorPlaneAtomicCheck (state : CursorState) : Except Errno Unit :=
  if state.base.fb.isNone then .ok ()
  else
    match helperCheck state with
    | .ok () => .ok ()
    | .error e => driverChecks state (.error e)

/-- What the FIFO, the reservation of the buffer and its mapping return; the mapping depends on
    the number of pages. -/
structure UpdateEnv where
  fifo : Bool
  reserve : Bool
  kmap : ℕ → Except Errno Unit

structure AlphaCursor where
  width : BitVec 32
  height : BitVec 32
  hotspotX : BitVec 32
  hotspotY : BitVec 32
  image : List UInt8

structure Position where
  shown : Bool
  x : ℤ
  y : ℤ
  deriving DecidableEq, Repr

/-- Products of `u32`. -/
def imageSize (width height : BitVec 32) : ℕ := (width * height * 4).toNat

def vmwCursorUpdateImage (env : UpdateEnv) (image : Option (ℕ → UInt8))
    (width height hotspotX hotspotY : BitVec 32) : Except Errno AlphaCursor :=
  match image with
  | none => .error .einval
  | some image =>
    if env.fifo then
      .ok ⟨width, height, hotspotX, hotspotY, (List.range (imageSize width height)).map image⟩
    else .error .enomem

/-- The number of pages is computed in `unsigned long`. -/
def kmapNum (width height : BitVec 32) : ℕ := (imageSize width height + 4095) / 4096

def vmwCursorUpdateBo (env : UpdateEnv) (bo : Buffer) (width height hotspotX hotspotY : BitVec 32) :
    Except Errno AlphaCursor :=
  if env.reserve then
    match env.kmap (kmapNum width height) with
    | .error e => .error e
    | .ok () => vmwCursorUpdateImage env (some bo.bytes) width height hotspotX hotspotY
  else .error .einval

structure CursorUnit where
  cursorSurface : Option Surface
  cursorBo : Option Buffer
  cursorAge : ℕ
  cursorX : ℤ
  cursorY : ℤ
  hotspotX : ℤ
  hotspotY : ℤ
  coreHotspotX : ℤ
  coreHotspotY : ℤ
  setGuiX : ℤ
  setGuiY : ℤ

/-- The references of a plane state, made by `vmw_du_cursor_plane_prepare_fb`. -/
structure PlaneRefs where
  surf : Option Surface
  bo : Option Buffer

def vmwDuCursorPlanePrepareFb (state : CursorState) : PlaneRefs :=
  if state.base.fb.isNone then ⟨none, none⟩
  else
    match state.backing with
    | .surface s => ⟨some s, none⟩
    | .buffer b => ⟨none, some b⟩

/-- What an update does: the unit, the image and the position that are sent, and whether it has
    come to "Failed to update cursor image". -/
structure CursorUpdate where
  du : CursorUnit
  upload : Option AlphaCursor
  position : Option Position
  failed : Bool

def finishUpdate (state : CursorState) (du : CursorUnit) (hotX hotY : ℤ) :
    Except Errno AlphaCursor → CursorUpdate
  | .error _ => ⟨du, none, none, true⟩
  | .ok image =>
    let x := s32 (state.base.crtcX + du.setGuiX)
    let y := s32 (state.base.crtcY + du.setGuiY)
    { du := { du with
        cursorX := x
        cursorY := y
        coreHotspotX := s32 (hotX - du.hotspotX)
        coreHotspotY := s32 (hotY - du.hotspotY) }
      upload := some image
      position := some ⟨true, s32 (x + hotX), s32 (y + hotY)⟩
      failed := false }

def vmwDuCursorPlaneAtomicUpdate (env : UpdateEnv) (state : CursorState) (refs : PlaneRefs)
    (du : CursorUnit) : CursorUpdate :=
  let hotX : BitVec 32 := if state.base.fb.isSome then state.hotX else 0
  let hotY : BitVec 32 := if state.base.fb.isSome then state.hotY else 0
  let du := { du with cursorSurface := refs.surf, cursorBo := refs.bo }
  match refs.surf, refs.bo with
  | some s, _ =>
    finishUpdate state { du with cursorAge := s.age } hotX.toInt hotY.toInt
      (vmwCursorUpdateImage env s.image 64 64 hotX hotY)
  | none, some b =>
    finishUpdate state du hotX.toInt hotY.toInt
      (vmwCursorUpdateBo env b (BitVec.ofNat 32 state.base.crtcW)
        (BitVec.ofNat 32 state.base.crtcH) hotX hotY)
  | none, none => ⟨du, none, some ⟨false, 0, 0⟩, false⟩

def commitCursor (env : UpdateEnv) (state : CursorState) (du : CursorUnit) : CursorUpdate :=
  vmwDuCursorPlaneAtomicUpdate env state (vmwDuCursorPlanePrepareFb state) du

structure Suitable (state : CursorState) : Prop where
  width : state.base.crtcW = 64
  height : state.base.crtcH = 64
  image : ∀ s, stateSurface state = some s → s.image.isSome

/-- The update has sent an image of 64 by 64 pixels, all of it. -/
def Complete (r : CursorUpdate) : Prop :=
  r.failed = false ∧ ∃ image, r.upload = some image ∧ image.width = 64 ∧ image.height = 64 ∧
    image.image.length = 64 * 64 * 4

/-- The check accepts suitable states that pass the helper, and no others, and what it accepts is
    uploaded completely. -/
structure CheckGood (state : CursorState) : Prop where
  accepted : vmwDuCursorPlaneAtomicCheck state = .ok () → Suitable state
  accepts : helperCheck state = .ok () → Suitable state → vmwDuCursorPlaneAtomicCheck state = .ok ()
  uploads : vmwDuCursorPlaneAtomicCheck state = .ok () → ∀ du,
    Complete (commitCursor ⟨true, true, fun _ => .ok ()⟩ state du)

theorem driverChecks_error (state : CursorState) (e : Errno) :
    driverChecks state (.error e) ≠ .ok () := by
  unfold driverChecks
  by_cases hsize : state.base.crtcW ≠ 64 ∨ state.base.crtcH ≠ 64
  · rw [if_pos hsize]
    cases stateSurface state with
    | none => simp
    | some s => simp
  · rw [if_neg hsize]
    cases stateSurface state with
    | none => simp
    | some s =>
      simp only
      split <;> simp

theorem check_ok_iff {state : CursorState} (hfb : state.base.fb.isSome) :
    vmwDuCursorPlaneAtomicCheck state = .ok () ↔ helperCheck state = .ok () := by
  have hnone : state.base.fb.isNone = false := by
    rw [Option.isNone_eq_false_iff]
    exact hfb
  unfold vmwDuCursorPlaneAtomicCheck
  rw [hnone]
  simp only [Bool.false_eq_true, if_false]
  cases hhelper : helperCheck state with
  | ok _ => exact Iff.rfl
  | error e =>
    exact ⟨fun h => absurd h (driverChecks_error state e), fun h => (by cases h)⟩

theorem imageSize_cursor : imageSize 64 64 = 64 * 64 * 4 := by decide

theorem Suitable.complete {state : CursorState} (h : Suitable state) (hfb : state.base.fb.isSome)
    (du : CursorUnit) : Complete (commitCursor ⟨true, true, fun _ => .ok ()⟩ state du) := by
  have hnone : state.base.fb.isNone = false := by
    rw [Option.isNone_eq_false_iff]
    exact hfb
  unfold commitCursor vmwDuCursorPlanePrepareFb
  rw [hnone]
  cases hback : state.backing with
  | surface s =>
    obtain ⟨image, himage⟩ := Option.isSome_iff_exists.mp
      (h.image s (by unfold stateSurface; rw [hback]))
    simp only [Bool.false_eq_true, if_false, vmwDuCursorPlaneAtomicUpdate, vmwCursorUpdateImage,
      himage, if_true]
    refine ⟨rfl, _, rfl, rfl, rfl, ?_⟩
    rw [List.length_map, List.length_range, imageSize_cursor]
  | buffer b =>
    simp only [Bool.false_eq_true, if_false, vmwDuCursorPlaneAtomicUpdate, vmwCursorUpdateBo,
      vmwCursorUpdateImage, if_true, h.width, h.height]
    refine ⟨rfl, _, rfl, rfl, rfl, ?_⟩
    rw [List.length_map, List.length_range]
    exact imageSize_cursor

/-- The check is good exactly for the states that the helper rejects and those that would not need
    the driver's own tests. -/
theorem checkGood_iff (state : CursorState) (hfb : state.base.fb.isSome) :
    CheckGood state ↔ helperCheck state ≠ .ok () ∨ Suitable state := by
  constructor
  · intro h
    by_cases hhelper : helperCheck state = .ok ()
    · exact .inr (h.accepted ((check_ok_iff hfb).mpr hhelper))
    · exact .inl hhelper
  · rintro (hhelper | hsuit)
    · refine ⟨fun h => ?_, fun h => ?_, fun h => ?_⟩
      · exact absurd ((check_ok_iff hfb).mp h) hhelper
      · exact absurd h hhelper
      · exact absurd ((check_ok_iff hfb).mp h) hhelper
    · exact ⟨fun _ => hsuit, fun h _ => (check_ok_iff hfb).mpr h, fun _ => hsuit.complete hfb⟩

def sampleState (size : ℕ) : CursorState where
  base := ⟨some ⟨size, size⟩, 0, 0, size * 65536, size * 65536, 10, 20, size, size⟩
  backing := .buffer ⟨3, fun _ => 0⟩
  hotX := 0
  hotY := 0

theorem sample_good : CheckGood (sampleState 64) :=
  (checkGood_iff (sampleState 64) rfl).mpr (.inr ⟨rfl, rfl, fun s h => (by cases h)⟩)

theorem small_cursor_accepted : ¬ CheckGood (sampleState 32) := by
  intro h
  have hcheck : vmwDuCursorPlaneAtomicCheck (sampleState 32) = .ok () := by decide +kernel
  exact absurd (h.accepted hcheck).width (by decide)

end Vmwgfx.CursorPlanes

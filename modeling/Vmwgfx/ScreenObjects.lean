import Vmwgfx.AtomicCommits
import Vmwgfx.ExecbufState
import Vmwgfx.Shares

set_option autoImplicit false

/-!
# Screen objects

The primary planes of `vmwgfx_scrn.c`: the check of a new plane state, the backing buffer that a
state has with its pin, and the screen that the device was told to make of it. All commands
reach the device. What is drawn in an update is left out.
-/
namespace Vmwgfx.ScreenObjects
open ExecbufState (Errno)
open AtomicCommits LabelledRuns Shares

structure Rect where
  x1 : ℤ
  y1 : ℤ
  x2 : ℤ
  y2 : ℤ
  deriving DecidableEq, Repr

def int32 (z : ℤ) : ℤ := z.bmod (2 ^ 32)

def Rect.width (r : Rect) : ℤ := int32 (r.x2 - r.x1)

def Rect.height (r : Rect) : ℤ := int32 (r.y2 - r.y1)

def drmRectVisible (r : Rect) : Bool := 0 < r.width && 0 < r.height

def drmRectIntersect (r clip : Rect) : Rect :=
  ⟨max r.x1 clip.x1, max r.y1 clip.y1, min r.x2 clip.x2, min r.y2 clip.y2⟩

def drmCalcScale (src dst : ℤ) : ℤ := if src < 0 ∨ dst < 0 then -22 else src / dst

/-- `drm_rect_calc_hscale` of the widths and `drm_rect_calc_vscale` of the heights. -/
def drmRectCalcScale (src dst minScale maxScale : ℤ) : ℤ :=
  let scale := drmCalcScale src dst
  if scale < 0 ∨ dst = 0 then scale
  else if scale < minScale ∨ maxScale < scale then -34 else scale

structure Framebuffer where
  width : ℕ
  height : ℕ
  deriving DecidableEq, Repr

/-- `struct drm_plane_state`. A plane has a CRTC exactly if it has a framebuffer. -/
structure DrmPlaneState where
  fb : Option Framebuffer
  srcX : ℕ
  srcY : ℕ
  srcW : ℕ
  srcH : ℕ
  crtcX : ℤ
  crtcY : ℤ
  crtcW : ℕ
  crtcH : ℕ
  deriving DecidableEq, Repr

/-- `drm_plane_helper_check_update` without rotation, for a CRTC that may be disabled; the
    clipped destination. -/
def drmPlaneHelperCheckUpdate (fb : Option Framebuffer) (src dst clip : Rect) (minScale maxScale : ℤ)
    (canPosition : Bool) : Except Errno Rect :=
  if fb.isNone then .ok dst
  else if drmRectCalcScale src.width dst.width minScale maxScale < 0 ∨
      drmRectCalcScale src.height dst.height minScale maxScale < 0 then .error (.other 34)
  else
    let clipped := drmRectIntersect dst clip
    if drmRectVisible clipped = false then .ok clipped
    else if canPosition = false ∧ clipped ≠ clip then .error .einval else .ok clipped

def noScaling : ℤ := 2 ^ 16

/-- `implicitTaken`: the unit is an implicit one, and another framebuffer is active on those. -/
def vmwDuPrimaryPlaneAtomicCheck (implicitTaken : Bool) (state : DrmPlaneState) : Except Errno Unit :=
  let src : Rect := ⟨int32 state.srcX, int32 state.srcY, int32 (state.srcX + state.srcW),
    int32 (state.srcY + state.srcH)⟩
  let dest : Rect := ⟨state.crtcX, state.crtcY, int32 (state.crtcX + state.crtcW),
    int32 (state.crtcY + state.crtcH)⟩
  match drmPlaneHelperCheckUpdate state.fb src dest dest noScaling noScaling false, state.fb with
  | .error e, _ => .error e
  | .ok _, none => .ok ()
  | .ok dest, some fb =>
    -- the framebuffer's numbers are unsigned
    if (fb.width : ℤ) < dest.x2 % 2 ^ 32 ∨ (fb.height : ℤ) < dest.y2 % 2 ^ 32 then .error .einval
    else if implicitTaken then .error .einval
    else .ok ()

structure Buffer where
  n : ℕ
  numPages : ℕ
  deriving DecidableEq, Repr

structure PlaneState where
  base : DrmPlaneState
  bo : Option Buffer
  boSize : ℕ
  deriving DecidableEq, Repr

/-- What a `SVGA_CMD_DEFINE_SCREEN` tells the device. -/
structure Screen where
  backingStore : Buffer
  width : ℕ
  height : ℕ
  deriving DecidableEq, Repr

/-- `screen` is what the device has. `modeSet` notes that a mode was set in the commit that is
    under way. -/
structure Sou where
  buffer : Option Buffer
  bufferSize : ℕ
  defined : Bool
  screen : Option Screen
  modeSet : Bool
  deriving DecidableEq, Repr

/-- The buffers made so far, with the references and pins that plane states have on them. -/
structure Rest (ι : Type*) where
  made : ℕ
  refs : Buffer → ℤ
  pins : Buffer → ℤ
  sou : ι → Sou

variable {ι : Type*}

def vmwBoReference (b : Buffer) (d : Rest ι) : Rest ι :=
  { d with refs := Function.update d.refs b (d.refs b + 1) }

/-- `vmw_bo_unreference(&vps->bo)`, where there is one. -/
def vmwBoUnreference (v : PlaneState) (d : Rest ι) : PlaneState × Rest ι :=
  match v.bo with
  | none => (v, d)
  | some b => ({ v with bo := none }, { d with refs := Function.update d.refs b (d.refs b - 1) })

def vmwBoPinInVram (b : Buffer) (d : Rest ι) : Rest ι :=
  { d with pins := Function.update d.pins b (d.pins b + 1) }

def vmwBoUnpin (b : Buffer) (d : Rest ι) : Rest ι :=
  { d with pins := Function.update d.pins b (d.pins b - 1) }

/-- What is asked of a new state, and for the check whether its implicit place is taken. -/
structure Asked where
  state : DrmPlaneState
  implicitTaken : Bool
  deriving DecidableEq, Repr

def vmwDuPlaneDuplicateState (k : Asked) (v : PlaneState) (d : Rest ι) : PlaneState × Rest ι :=
  ({ v with base := k.state },
    match v.bo with
    | none => d
    | some b => vmwBoReference b d)

def vmwDuPlaneDestroyState (v : PlaneState) (d : Rest ι) : Rest ι := (vmwBoUnreference v d).2

def vmwSouPrimaryPlaneCleanupFb (v : PlaneState) (d : Rest ι) : PlaneState × Rest ι :=
  let r := vmwBoUnreference v (match v.bo with
    | none => d
    | some b => vmwBoUnpin b d)
  ({ r.1 with boSize := 0 }, r.2)

/-- How `kzalloc`, `vmw_bo_init` and `vmw_bo_pin_in_vram` end. -/
structure PrepareEnds where
  alloc : Bool
  init : Option Errno
  pin : Option Errno
  deriving DecidableEq, Repr

/-- `new_state->crtc_w * new_state->crtc_h * 4`, of type `uint32_t`. -/
def planeSize (s : DrmPlaneState) : ℕ := s.crtcW * s.crtcH * 4 % 2 ^ 32

def pageSize : ℕ := 4096

def pagesOf (size : ℕ) : ℕ := (size + pageSize - 1) / pageSize

/-- A new buffer of that size. There is none of no pages. -/
def vmwBoInit (ret : Option Errno) (size : ℕ) (d : Rest ι) : Except Errno (Buffer × Rest ι) :=
  if pagesOf size = 0 then .error .einval
  else
    match ret with
    | some e => .error e
    | none => .ok (⟨d.made, pagesOf size⟩, vmwBoReference ⟨d.made, pagesOf size⟩ { d with made := d.made + 1 })

def pinBo (ret : Option Errno) (b : Buffer) (v : PlaneState) (d : Rest ι) : Bool × PlaneState × Rest ι :=
  match ret with
  | some _ => (false, v, d)
  | none => (true, v, vmwBoPinInVram b d)

def newBo (o : PrepareEnds) (size : ℕ) (v : PlaneState) (d : Rest ι) : Bool × PlaneState × Rest ι :=
  if o.alloc = false then (false, v, d)
  else
    match vmwBoInit o.init size d with
    | .error _ => (false, v, d)
    | .ok (b, d) => pinBo o.pin b { v with bo := some b, boSize := size } d

def vmwSouPrimaryPlanePrepareFb (o : PrepareEnds) (v : PlaneState) (d : Rest ι) :
    Bool × PlaneState × Rest ι :=
  match v.base.fb, v.bo with
  | none, _ =>
    let r := vmwBoUnreference v d
    (true, { r.1 with boSize := 0 }, r.2)
  | some _, none => newBo o (planeSize v.base) v d
  | some _, some b =>
    if v.boSize = planeSize v.base then pinBo o.pin b v d
    else
      let r := vmwBoUnreference v d
      newBo o (planeSize v.base) { r.1 with boSize := 0 } r.2

structure DisplayMode where
  hdisplay : ℕ
  vdisplay : ℕ
  deriving DecidableEq, Repr

def vmwSouFifoCreate (m : DisplayMode) (t : Sou) : Sou :=
  match t.buffer with
  | none => t -- `BUG_ON(!sou->buffer)`
  | some b => { t with defined := true, screen := some ⟨b, m.hdisplay, m.vdisplay⟩ }

def vmwSouFifoDestroy (t : Sou) : Sou :=
  if t.defined then { t with defined := false, screen := none } else t

def vmwSouCrtcModeSetNofb (m : DisplayMode) (v : PlaneState) (t : Sou) : Sou :=
  let t := vmwSouFifoDestroy t
  match v.base.fb with
  | some _ => vmwSouFifoCreate m { t with buffer := v.bo, bufferSize := v.boSize }
  | none => { t with buffer := none, bufferSize := 0 }

/-- A mode is set for a CRTC that stays enabled, or the CRTC is disabled. -/
inductive CrtcCall where
  | modeSetNofb (m : DisplayMode)
  | disable
  deriving DecidableEq, Repr

def crtcCall (v : PlaneState) (t : Sou) : CrtcCall → Sou
  | .modeSetNofb m => { vmwSouCrtcModeSetNofb m v t with modeSet := true }
  | .disable => vmwSouFifoDestroy t

section Planes
variable [DecidableEq ι]

def Rest.setSou (d : Rest ι) (u : ι) (t : Sou) : Rest ι :=
  { d with sou := Function.update d.sou u t }

def planeFuncs : PlaneFuncs ι PlaneState (Rest ι) Asked PrepareEnds CrtcCall Unit where
  duplicateState := vmwDuPlaneDuplicateState
  prepareFb := vmwSouPrimaryPlanePrepareFb
  modeSet u x v d := d.setSou u (crtcCall v (d.sou u) x)
  atomicUpdate u _ _ _ d := d.setSou u { d.sou u with modeSet := false }
  cleanupFb := vmwSouPrimaryPlaneCleanupFb
  destroyState := vmwDuPlaneDestroyState

def blank : PlaneState := ⟨⟨none, 0, 0, 0, 0, 0, 0, 0, 0⟩, none, 0⟩

/-- Planes that show nothing, and units without a screen. -/
def init : Device ι PlaneState (Rest ι) where
  lanes _ := ⟨blank, none, none, [], []⟩
  rest := ⟨0, fun _ => 0, fun _ => 0, fun _ => ⟨none, 0, false, none, false⟩⟩

def checked : ι × LaneOp Asked PrepareEnds CrtcCall Unit → Bool
  | (_, .duplicate k) => (vmwDuPrimaryPlaneAtomicCheck k.implicitTaken k.state).isOk
  | _ => true

/-- A plane for which a mode is set is large enough for it, and in a commit without one a unit
    with a screen keeps having a framebuffer, on a plane of the same size. -/
def covers (s : Device ι PlaneState (Rest ι)) : ι × LaneOp Asked PrepareEnds CrtcCall Unit → Bool
  | (u, .modeSet (.modeSetNofb m)) =>
    let v := (s.lanes u).current.base
    v.fb.isNone || m.hdisplay * m.vdisplay * 4 ≤ pagesOf (planeSize v) * pageSize
  | (u, .update _) =>
    let v := (s.lanes u).current.base
    !(s.rest.sou u).defined || (s.rest.sou u).modeSet ||
      v.fb.isSome && (s.lanes u).replaced.all fun w => planeSize w.base = planeSize v
  | _ => true

end Planes

def refsOn (b : Buffer) (v : PlaneState) : ℤ := mark v.bo b

def pinsOn (b : Buffer) (c : Stage) (v : PlaneState) : ℤ := if c = .prepared then mark v.bo b else 0

def Sized (v : PlaneState) : Prop := ∀ b, v.bo = some b → b.numPages = pagesOf v.boSize

/-- The stages: a prepared state with a framebuffer has a buffer of the size of the plane. -/
def good : Stage → PlaneState → Prop
  | .prepared, v => Sized v ∧ (v.bo.isSome ↔ v.base.fb.isSome) ∧
      (v.base.fb.isSome → v.boSize = planeSize v.base)
  | .fresh, v => Sized v
  | .spent, _ => True

variable {v w : PlaneState} {d d' : Rest ι} {b : Buffer}

structure Prepares (v : PlaneState) (d : Rest ι) (r : Bool × PlaneState × Rest ι) : Prop where
  refs : r.2.2.refs + mark v.bo = d.refs + mark r.2.1.bo
  pins : r.2.2.pins = d.pins + if r.1 then mark r.2.1.bo else 0
  sou : r.2.2.sou = d.sou
  base : r.2.1.base = v.base
  backed : r.1 = true → v.base.fb.isSome → ∃ b, r.2.1.bo = some b ∧
    b.numPages = pagesOf r.2.1.boSize ∧ r.2.1.boSize = planeSize v.base
  blank : r.1 = true → v.base.fb = none → r.2.1.bo = none

theorem vmwBoUnreference_fields (v : PlaneState) (d : Rest ι) :
    (vmwBoUnreference v d).1 = { v with bo := none } := by
  obtain ⟨_, bo, _⟩ := v
  cases bo <;> rfl

theorem vmwBoUnreference_refs (v : PlaneState) (d : Rest ι) :
    (vmwBoUnreference v d).2.refs + mark v.bo = d.refs := by
  unfold vmwBoUnreference
  cases v.bo with
  | none => simp
  | some b =>
    dsimp only
    rw [update_sub_mark, one_smul, sub_add_cancel]

theorem vmwBoUnreference_rest (v : PlaneState) (d : Rest ι) :
    (vmwBoUnreference v d).2.pins = d.pins ∧ (vmwBoUnreference v d).2.sou = d.sou := by
  unfold vmwBoUnreference
  cases v.bo <;> exact ⟨rfl, rfl⟩

theorem Prepares.failed (v : PlaneState) (d : Rest ι) : Prepares v d (false, v, d) :=
  ⟨rfl, (add_zero _).symm, rfl, rfl, fun h => (by cases h), fun h => (by cases h)⟩

theorem Prepares.after {r : Bool × PlaneState × Rest ι} (h : Prepares w d' r)
    (hrefs : d'.refs + mark v.bo = d.refs + mark w.bo) (hpins : d'.pins = d.pins)
    (hsou : d'.sou = d.sou) (hbase : w.base = v.base) : Prepares v d r := by
  refine ⟨?_, by rw [h.pins, hpins], h.sou.trans hsou, h.base.trans hbase, ?_, ?_⟩
  · have hboth := congrArg₂ (· + ·) h.refs hrefs
    refine add_right_cancel (b := mark w.bo + d'.refs) ?_
    calc
      r.2.2.refs + mark v.bo + (mark w.bo + d'.refs) =
          r.2.2.refs + mark w.bo + (d'.refs + mark v.bo) := by abel
      _ = d'.refs + mark r.2.1.bo + (d.refs + mark w.bo) := hboth
      _ = d.refs + mark r.2.1.bo + (mark w.bo + d'.refs) := by abel
  · rw [← hbase]
    exact h.backed
  · rw [← hbase]
    exact h.blank

theorem pinBo_spec (hbo : v.bo = some b) (hfb : v.base.fb.isSome = true)
    (hpages : b.numPages = pagesOf v.boSize) (hsize : v.boSize = planeSize v.base)
    (ret : Option Errno) (d : Rest ι) : Prepares v d (pinBo ret b v d) := by
  unfold pinBo
  cases ret with
  | some e => exact .failed v d
  | none =>
    refine ⟨rfl, ?_, rfl, rfl, fun _ _ => ⟨b, hbo, hpages, hsize⟩, fun _ h => ?_⟩
    · simp only [vmwBoPinInVram, update_add_mark, one_smul, hbo, if_true]
    · rw [h] at hfb
      cases hfb

theorem newBo_spec (hbo : v.bo = none) (hfb : v.base.fb.isSome = true) (o : PrepareEnds)
    (d : Rest ι) : Prepares v d (newBo o (planeSize v.base) v d) := by
  unfold newBo
  split_ifs
  · exact .failed v d
  · unfold vmwBoInit
    split_ifs
    · exact .failed v d
    · cases o.init with
      | some e => exact .failed v d
      | none =>
        refine (pinBo_spec (v := { v with
            bo := some ⟨d.made, pagesOf (planeSize v.base)⟩
            boSize := planeSize v.base }) rfl hfb rfl rfl o.pin _).after ?_ rfl rfl rfl
        simp only [vmwBoReference, update_add_mark, one_smul, hbo, mark_none, add_zero]

theorem unreference_after {r : Bool × PlaneState × Rest ι}
    (h : Prepares { v with bo := none, boSize := 0 } (vmwBoUnreference v d).2 r) : Prepares v d r :=
  h.after (by rw [vmwBoUnreference_refs, mark_none, add_zero]) (vmwBoUnreference_rest v d).1
    (vmwBoUnreference_rest v d).2 rfl

theorem prepareFb_spec (hv : Sized v) (o : PrepareEnds) (d : Rest ι) :
    Prepares v d (vmwSouPrimaryPlanePrepareFb o v d) := by
  unfold vmwSouPrimaryPlanePrepareFb
  split
  case h_1 hfb =>
    simp only [vmwBoUnreference_fields]
    refine unreference_after ⟨rfl, ?_, rfl, rfl, fun _ h => ?_, fun _ _ => rfl⟩
    · simp only [if_true, mark_none, add_zero]
    · rw [show ({ v with bo := none, boSize := 0 } : PlaneState).base = v.base from rfl, hfb] at h
      cases h
  case h_2 hfb hbo => exact newBo_spec hbo (by rw [hfb]; rfl) o d
  case h_3 b hfb hbo =>
    have hsome : v.base.fb.isSome = true := by rw [hfb]; rfl
    split_ifs with hsize
    · exact pinBo_spec hbo hsome (hv b hbo) hsize o.pin d
    · simp only [vmwBoUnreference_fields]
      exact unreference_after (newBo_spec (v := { v with bo := none, boSize := 0 }) rfl hsome o _)

theorem prepareFb_keeps (hfb : v.base.fb.isSome = true) (hbo : v.bo.isSome = true)
    (hsize : v.boSize = planeSize v.base) (o : PrepareEnds) (d : Rest ι) :
    (vmwSouPrimaryPlanePrepareFb o v d).2.1.bo = v.bo := by
  obtain ⟨fb, hfb⟩ := Option.isSome_iff_exists.1 hfb
  obtain ⟨b, hbo⟩ := Option.isSome_iff_exists.1 hbo
  simp only [vmwSouPrimaryPlanePrepareFb, hfb, hbo, hsize, if_true]
  unfold pinBo
  cases o.pin <;> exact hbo

theorem cleanupFb_spec (v : PlaneState) (d : Rest ι) :
    let r := vmwSouPrimaryPlaneCleanupFb v d
    r.2.refs + mark v.bo = d.refs ∧ r.2.pins + mark v.bo = d.pins ∧ r.2.sou = d.sou ∧ r.1.bo = none := by
  unfold vmwSouPrimaryPlaneCleanupFb
  dsimp only
  rw [vmwBoUnreference_refs, (vmwBoUnreference_rest v _).1, (vmwBoUnreference_rest v _).2,
    vmwBoUnreference_fields]
  cases v.bo with
  | none => simp
  | some b => simp [vmwBoUnpin, update_sub_mark]

theorem duplicateState_spec (k : Asked) (v : PlaneState) (d : Rest ι) :
    let r := vmwDuPlaneDuplicateState k v d
    r.2.refs = d.refs + mark v.bo ∧ r.2.pins = d.pins ∧ r.2.sou = d.sou := by
  unfold vmwDuPlaneDuplicateState
  cases v.bo with
  | none => simp
  | some b => simp [vmwBoReference, update_add_mark]

section Planes
variable [DecidableEq ι]

omit [DecidableEq ι] in
theorem prepared_good {c : Bool} (h : Prepares v d (c, w, d')) :
    good (if c then .prepared else .spent) w := by
  cases c with
  | false => trivial
  | true =>
    rw [if_pos rfl]
    cases hfb : v.base.fb with
    | none =>
      have hnone : w.bo = none := h.blank rfl hfb
      have hbase : w.base.fb = none := by rw [h.base, hfb]
      refine ⟨fun b hb => ?_, by rw [hnone, hbase]; rfl, fun hs => ?_⟩
      · rw [hnone] at hb
        cases hb
      · rw [hbase] at hs
        cases hs
    | some fb =>
      obtain ⟨b, hb, hpages, hsize⟩ := h.backed rfl (by rw [hfb]; rfl)
      dsimp only at hb hpages hsize
      have hbase : w.base = v.base := h.base
      refine ⟨fun b' hb' => ?_, by rw [hb, hbase, hfb]; rfl, fun _ => by rw [hbase]; exact hsize⟩
      cases hb.symm.trans hb'
      exact hpages

theorem staged : Staged (planeFuncs (ι := ι)) good where
  duplicate _ _ _ h := h.1
  prepare e _ d h := prepared_good (prepareFb_spec h e d)
  cleanup _ _ _ := trivial

theorem counts_refs (b : Buffer) :
    Counts (planeFuncs (ι := ι)) good (fun _ => refsOn b) fun d => d.refs b where
  duplicate k v d _ := congrFun (duplicateState_spec k v d).1 b
  prepare e v d h := congrFun (prepareFb_spec h e d).refs b
  modeSet _ _ _ _ := rfl
  update _ _ _ _ _ := rfl
  cleanup v d _ := by
    obtain ⟨hrefs, -, -, hbo⟩ := cleanupFb_spec v d
    simp only [planeFuncs, refsOn, hbo, mark_none]
    simpa using congrFun hrefs b
  destroy c v d _ _ := congrFun (vmwBoUnreference_refs v d) b

theorem counts_pins (b : Buffer) : Counts (planeFuncs (ι := ι)) good (pinsOn b) fun d => d.pins b where
  duplicate k v d _ := by
    simp only [planeFuncs, (duplicateState_spec k v d).2.1]
    exact (add_zero _).symm
  prepare e v d h := by
    have hpins := congrFun (prepareFb_spec h e d).pins b
    change (vmwSouPrimaryPlanePrepareFb e v d).2.2.pins b + pinsOn b .fresh v =
      d.pins b + pinsOn b (if (vmwSouPrimaryPlanePrepareFb e v d).1 then _ else _)
        (vmwSouPrimaryPlanePrepareFb e v d).2.1
    rcases hr : vmwSouPrimaryPlanePrepareFb e v d with ⟨_ | _, v', d'⟩ <;> rw [hr] at hpins
    · simpa [pinsOn] using hpins
    · simpa [pinsOn] using hpins
  modeSet _ _ _ _ := rfl
  update _ _ _ _ _ := rfl
  cleanup v d _ := (congrFun (cleanupFb_spec v d).2.1 b).trans (add_zero _).symm
  destroy c v d hc _ := by
    simp only [planeFuncs, vmwDuPlaneDestroyState, (vmwBoUnreference_rest v d).1, pinsOn, if_neg hc,
      add_zero]

omit [DecidableEq ι] in
theorem init_ok (u : ι) : LaneOk good ((init (ι := ι)).lanes u) where
  current := ⟨fun _ hb => (by cases hb), Iff.rfl, fun h => (by cases h)⟩
  next _ hx := by cases hx
  replaced _ hx := by cases hx
  updated _ hx := by cases hx
  cleaned _ hx := by cases hx

theorem pins_counted [Fintype ι] {admits : Device ι PlaneState (Rest ι) → ι × _ → Prop}
    {as : List (ι × LaneOp Asked PrepareEnds CrtcCall Unit)} {s : Device ι PlaneState (Rest ι)}
    (h : Runs (step planeFuncs) admits init as s) (b : Buffer) :
    s.rest.pins b = ∑ u, total (pinsOn b) (s.lanes u) :=
  counted_of_runs staged (counts_pins b) h init_ok
    (by simp [init, total, Lane.states, pinsOn, blank])

/-- A state that is made for a plane of the same size has the same buffer. -/
def Keeps (v w : PlaneState) : Prop :=
  v.base.fb.isSome → w.base.fb.isSome → planeSize w.base = planeSize v.base → v.bo = w.bo

structure Chained (L : Lane PlaneState) : Prop where
  fresh : ∀ v, L.next = some (.fresh, v) → v.bo = L.current.bo ∧ v.boSize = L.current.boSize
  prepared : ∀ v, L.next = some (.prepared, v) → Keeps v L.current
  replaced : ∀ w, L.replaced = some w → Keeps L.current w

omit [DecidableEq ι] in
theorem prepare_keeps (hw : good .prepared w) (hv : Sized v) (hbo : v.bo = w.bo)
    (hsize : v.boSize = w.boSize) (o : PrepareEnds) (d : Rest ι) :
    Keeps (vmwSouPrimaryPlanePrepareFb o v d).2.1 w := by
  intro hfb hwfb heq
  rw [(prepareFb_spec hv o d).base] at hfb heq
  have hwsize := hw.2.2 hwfb
  rw [prepareFb_keeps hfb (by rw [hbo]; exact hw.2.1.2 hwfb) (by rw [hsize, hwsize, heq]), hbo]

theorem Chained.to {L L' : Lane PlaneState} {u : ι} {a : LaneOp Asked PrepareEnds CrtcCall Unit}
    (hL : LaneOk good L) (hc : Chained L) (h : LaneTo planeFuncs u L d a L' d') : Chained L' := by
  obtain ⟨hfresh, hprepared, hreplaced⟩ := hc
  cases h with
  | duplicate k h =>
    refine ⟨fun v hv => ?_, fun v hv => (by cases hv), hreplaced⟩
    cases hv
    exact ⟨rfl, rfl⟩
  | prepare e v h =>
    obtain ⟨hbo, hsize⟩ := hfresh v h
    refine ⟨fun w hw => ?_, fun w hw => ?_, hreplaced⟩
    · simp only [Option.some.injEq, Prod.mk.injEq] at hw
      split_ifs at hw <;> cases hw.1
    · simp only [Option.some.injEq, Prod.mk.injEq] at hw
      rw [← hw.2]
      exact prepare_keeps hL.current (hL.next _ h) hbo hsize e d
  | rollBack v h => exact ⟨fun w hw => (by cases hw), fun w hw => (by cases hw), hreplaced⟩
  | discard c v hc h => exact ⟨fun w hw => (by cases hw), fun w hw => (by cases hw), hreplaced⟩
  | swap v h hr =>
    refine ⟨fun w hw => (by cases hw), fun w hw => (by cases hw), fun w hw => ?_⟩
    cases hw
    exact hprepared v h
  | modeSet c w h => exact ⟨hfresh, hprepared, hreplaced⟩
  | update c w h => exact ⟨hfresh, hprepared, fun w hw => by cases hw⟩
  | cleanup n v h => exact ⟨hfresh, hprepared, hreplaced⟩
  | destroy n v h => exact ⟨hfresh, hprepared, hreplaced⟩

theorem setSou_self (d : Rest ι) (u : ι) (t : Sou) : (d.setSou u t).sou u = t :=
  Function.update_self _ _ _

theorem setSou_ne (d : Rest ι) {u w : ι} (h : w ≠ u) (t : Sou) : (d.setSou u t).sou w = d.sou w :=
  Function.update_of_ne h _ _

theorem sou_of_laneTo {L L' : Lane PlaneState} {u w : ι} {a : LaneOp Asked PrepareEnds CrtcCall Unit}
    (hL : LaneOk good L) (h : LaneTo planeFuncs u L d a L' d')
    (ha : w ≠ u ∨ (∀ c, a ≠ .modeSet c) ∧ ∀ ok, a ≠ .update ok) : d'.sou w = d.sou w := by
  cases h with
  | duplicate k h => exact congrFun (duplicateState_spec k _ d).2.2 w
  | prepare e v h => exact congrFun (prepareFb_spec (hL.next _ h) e d).sou w
  | rollBack v h => exact congrFun (cleanupFb_spec v d).2.2.1 w
  | discard c v hc h => exact congrFun (vmwBoUnreference_rest v d).2 w
  | swap v h hr => rfl
  | modeSet c v h => exact setSou_ne d (ha.resolve_right fun ha => ha.1 c rfl) _
  | update ok v h => exact setSou_ne d (ha.resolve_right fun ha => ha.2 ok rfl) _
  | cleanup n v h => exact congrFun (cleanupFb_spec v d).2.2.1 w
  | destroy n v h => exact congrFun (vmwBoUnreference_rest v d).2 w

def shown (L : Lane PlaneState) (t : Sou) : PlaneState :=
  if t.modeSet then L.current else L.replaced.getD L.current

structure Backs (L : Lane PlaneState) (t : Sou) : Prop where
  inCommit : t.modeSet = true → L.replaced.isSome = true
  defined : t.defined = t.screen.isSome
  named : ∀ x, t.screen = some x → (shown L t).bo = some x.backingStore
  large : ∀ x, t.screen = some x → x.width * x.height * 4 ≤ x.backingStore.numPages * pageSize

theorem fifoDestroy_screen {t : Sou} (h : t.defined = t.screen.isSome) :
    (vmwSouFifoDestroy t).screen = none ∧ (vmwSouFifoDestroy t).defined = false ∧
      (vmwSouFifoDestroy t).modeSet = t.modeSet := by
  unfold vmwSouFifoDestroy
  split_ifs with hd
  · exact ⟨rfl, rfl, rfl⟩
  · refine ⟨?_, by simpa using hd, rfl⟩
    rw [h] at hd
    simpa using hd

theorem modeSetNofb_screen {t : Sou} (hv : good .prepared v) (h : t.defined = t.screen.isSome)
    (m : DisplayMode) :
    let t' := vmwSouCrtcModeSetNofb m v t
    t'.defined = t'.screen.isSome ∧ ∀ x, t'.screen = some x →
      v.base.fb.isSome = true ∧ v.bo = some x.backingStore ∧ x.width = m.hdisplay ∧
        x.height = m.vdisplay := by
  obtain ⟨hscreen, hdefined, -⟩ := fifoDestroy_screen h
  unfold vmwSouCrtcModeSetNofb
  cases hfb : v.base.fb with
  | none =>
    refine ⟨by simp [hscreen, hdefined], fun x hx => ?_⟩
    rw [show _ = none from hscreen] at hx
    cases hx
  | some fb =>
    obtain ⟨b, hb⟩ := Option.isSome_iff_exists.1 (hv.2.1.2 (by rw [hfb]; rfl))
    simp only [vmwSouFifoCreate, hb]
    refine ⟨rfl, fun x hx => ?_⟩
    cases hx
    exact ⟨rfl, rfl, rfl, rfl⟩

theorem Backs.swap {L : Lane PlaneState} {t : Sou} (h : Backs L t) (hr : L.replaced = none)
    (v : PlaneState) :
    Backs { L with current := v, next := none, replaced := some L.current } t := by
  have hmode : t.modeSet = false := by
    have hset := h.inCommit
    rw [hr] at hset
    simpa using hset
  refine ⟨fun _ => rfl, h.defined, fun x hx => ?_, h.large⟩
  have hnamed := h.named x hx
  simp only [shown, hmode, hr] at hnamed ⊢
  exact hnamed

omit [DecidableEq ι] in
theorem Backs.modeSet {L : Lane PlaneState} {d : Rest ι} {u : ι} {c : CrtcCall}
    (hL : LaneOk good L) (h : Backs L (d.sou u)) (hw : L.replaced = some w)
    (hcovers : ∀ m, c = .modeSetNofb m → L.current.base.fb.isSome →
      m.hdisplay * m.vdisplay * 4 ≤ pagesOf (planeSize L.current.base) * pageSize) :
    Backs L (crtcCall L.current (d.sou u) c) := by
  cases c with
  | disable =>
    obtain ⟨hscreen, hdefined, hmode⟩ := fifoDestroy_screen h.defined
    refine ⟨fun _ => by rw [hw]; rfl, ?_, fun x hx => ?_, fun x hx => ?_⟩
    · exact hdefined.trans (by rw [crtcCall, hscreen]; rfl)
    · cases hscreen.symm.trans hx
    · cases hscreen.symm.trans hx
  | modeSetNofb m =>
    obtain ⟨hdefined, hscreen⟩ := modeSetNofb_screen hL.current h.defined m
    refine ⟨fun _ => by rw [hw]; rfl, hdefined, fun x hx => (hscreen x hx).2.1, fun x hx => ?_⟩
    obtain ⟨hfb, hbo, hwidth, hheight⟩ := hscreen x hx
    rw [hwidth, hheight, hL.current.1 _ hbo, hL.current.2.2 hfb]
    exact hcovers m rfl hfb

theorem Backs.update {L : Lane PlaneState} {t : Sou} (hL : LaneOk good L) (hc : Chained L)
    (h : Backs L t) (hw : L.replaced = some w)
    (hcovers : t.defined = false ∨ t.modeSet = true ∨
      L.current.base.fb.isSome ∧ planeSize w.base = planeSize L.current.base) :
    Backs { L with replaced := none, updated := w :: L.updated } { t with modeSet := false } := by
  refine ⟨fun hset => (by cases hset), h.defined, fun x hx => ?_, h.large⟩
  have hx : t.screen = some x := hx
  have hnamed := h.named x hx
  change L.current.bo = some x.backingStore
  cases hset : t.modeSet with
  | true =>
    rw [shown, if_pos hset] at hnamed
    exact hnamed
  | false =>
    rw [shown, if_neg (by simp [hset]), hw] at hnamed
    have hnamed : w.bo = some x.backingStore := hnamed
    obtain hundef | hset' | ⟨hfb, hsize⟩ := hcovers
    · rw [h.defined, hx] at hundef
      cases hundef
    · cases hset.symm.trans hset'
    · have hwfb := (hL.replaced w hw).2.1.1 (by rw [hnamed]; rfl)
      exact (hc.replaced w hw hfb hwfb hsize).trans hnamed

theorem Backs.to {s : Device ι PlaneState (Rest ι)} {L' : Lane PlaneState} {u : ι}
    {a : LaneOp Asked PrepareEnds CrtcCall Unit} (hL : LaneOk good (s.lanes u))
    (hc : Chained (s.lanes u)) (hok : covers s (u, a) = true)
    (h : Backs (s.lanes u) (s.rest.sou u)) (hto : LaneTo planeFuncs u (s.lanes u) s.rest a L' d') :
    Backs L' (d'.sou u) := by
  have hkept := sou_of_laneTo (w := u) hL hto
  cases hto with
  | modeSet c w hw =>
    simp only [planeFuncs, setSou_self]
    refine h.modeSet hL hw fun m hm hfb => ?_
    subst hm
    simp only [covers, Bool.or_eq_true, Option.isNone_iff_eq_none, decide_eq_true_eq] at hok
    exact hok.resolve_left fun hnone => by simp [hnone] at hfb
  | update c w hw =>
    simp only [planeFuncs, setSou_self]
    refine h.update hL hc hw ?_
    simpa [covers, hw, or_assoc] using hok
  | swap v hv hr => exact h.swap hr v
  | duplicate | prepare | rollBack | discard | cleanup | destroy =>
    rw [hkept (.inr ⟨fun _ ha => (by cases ha), fun _ ha => (by cases ha)⟩)]
    exact ⟨h.inCommit, h.defined, h.named, h.large⟩

/-- While planes cover their modes, the buffer of a screen is held by a prepared state, and so it
    is neither freed nor moved, and it is as large as the screen. -/
theorem screens_backed [Fintype ι] {as : List (ι × LaneOp Asked PrepareEnds CrtcCall Unit)}
    {s : Device ι PlaneState (Rest ι)}
    (h : Runs (step planeFuncs) (fun s a => checked a = true ∧ covers s a = true) init as s) :
    (∀ u x, (s.rest.sou u).screen = some x →
      0 < s.rest.refs x.backingStore ∧ 0 < s.rest.pins x.backingStore ∧
        x.width * x.height * 4 ≤ x.backingStore.numPages * pageSize) ∧
      ∀ b, s.rest.pins b = ∑ u, total (pinsOn b) (s.lanes u) := by
  refine ⟨fun u x hx => ?_, pins_counted h⟩
  have hrefs := counted_of_runs staged (counts_refs x.backingStore) h init_ok
    (by simp [init, total, Lane.states, refsOn, blank])
  have hbacks : Chained (s.lanes u) ∧ Backs (s.lanes u) (s.rest.sou u) :=
    planes_of_runs (Q := fun u L d => Chained L ∧ Backs L (d.sou u)) staged h init_ok
      (fun u => ⟨⟨fun _ hv => (by cases hv), fun _ hv => (by cases hv), fun _ hw => (by cases hw)⟩,
        ⟨fun hset => (by cases hset), rfl, fun _ hx => (by cases hx), fun _ hx => (by cases hx)⟩⟩)
      (fun s u a L d hs hok hQ hto => ⟨hQ.1.to (hs u) hto, hQ.2.to (hs u) hQ.1 hok.2 hto⟩)
      (fun s u a L d w hw hs hQ hto => by
        rw [sou_of_laneTo (hs u) hto (.inl hw)]
        exact hQ) u
  have hnamed := hbacks.2.named x hx
  have hheld : (.prepared, shown (s.lanes u) (s.rest.sou u)) ∈ (s.lanes u).states := by
    unfold shown
    split_ifs
    · exact List.mem_cons_self
    · exact replaced_mem_states _
  have hone := mark_of_eq hnamed
  refine ⟨?_, ?_, hbacks.2.large x hx⟩
  · have hle := le_counted (f := fun _ => refsOn x.backingStore)
      (fun _ v => mark_nonneg v.bo x.backingStore) hheld
    rw [refsOn, hone] at hle
    omega
  · have hle := le_counted (f := pinsOn x.backingStore)
      (fun c v => ite_nonneg (mark_nonneg v.bo x.backingStore) le_rfl) hheld
    rw [pinsOn, if_pos rfl, hone] at hle
    have := pins_counted h x.backingStore
    omega

section Run

def flipTo (width height : ℕ) : List (Unit × LaneOp Asked PrepareEnds CrtcCall Unit) :=
  [((), .duplicate ⟨⟨some ⟨128, 128⟩, 0, 0, width * 2 ^ 16, height * 2 ^ 16, 0, 0, width, height⟩,
      false⟩), ((), .prepare ⟨true, none, none⟩), ((), .swap)]

/-- A mode set for a plane of its size, and then an update without one. -/
def resizeRun (width height : ℕ) : List (Unit × LaneOp Asked PrepareEnds CrtcCall Unit) :=
  flipTo 64 64 ++ [((), .modeSet (.modeSetNofb ⟨64, 64⟩)), ((), .update ()), ((), .cleanup 0),
    ((), .destroy 0)] ++ flipTo width height ++ [((), .update ()), ((), .cleanup 0), ((), .destroy 0)]

theorem resizeRun_backed :
    let s := (execAdmitted (step planeFuncs) (fun s a => checked a = true ∧ covers s a = true) init
      (resizeRun 64 64)).getD init
    (s.rest.sou ()).screen = some ⟨⟨0, 4⟩, 64, 64⟩ ∧ 0 < s.rest.pins ⟨0, 4⟩ :=
  ⟨by decide, ((screens_backed (runs_admitted_getD (d := init) (by decide))).1 ()
    ⟨⟨0, 4⟩, 64, 64⟩ (by decide)).2.1⟩

/-- A plane of another size gets another buffer, and the screen still names the freed one. -/
theorem resizeRun_frees :
    let s := (execAdmitted (step planeFuncs) (fun _ a => checked a = true) init
      (resizeRun 32 32)).getD init
    Runs (step planeFuncs) (fun _ a => checked a = true) init (resizeRun 32 32) s ∧
      (s.rest.sou ()).screen = some ⟨⟨0, 4⟩, 64, 64⟩ ∧ s.rest.refs ⟨0, 4⟩ = 0 ∧
        s.rest.pins ⟨0, 4⟩ = 0 :=
  ⟨runs_admitted_getD (by decide), by decide, by decide, by decide⟩

end Run

end Planes

end Vmwgfx.ScreenObjects

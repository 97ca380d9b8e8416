import Vmwgfx.AtomicCommits
import Vmwgfx.ExecbufState
import Vmwgfx.Shares

set_option autoImplicit false

/-!
# Screen targets

The primary planes of `vmwgfx_stdu.c`: which surface a plane state shows, how it is pinned,
and what is bound to the screen targets. The fence waits and the contents of the updates are
left out.
-/
namespace Vmwgfx.ScreenTargets
open ExecbufState (Errno)
open AtomicCommits LabelledRuns Shares

inductive StduContentType where
  | sameAsDisplay
  | separateSurface
  | separateBo
  deriving DecidableEq, Repr

/-- `base_size` and `format` of a surface. -/
structure Surface where
  width : ℕ
  height : ℕ
  format : ℕ
  deriving DecidableEq, Repr

/-- The surfaces of framebuffers, and those that are made for a plane. -/
inductive SurfaceId where
  | user (n : ℕ)
  | display (n : ℕ)
  deriving DecidableEq, Repr

/-- A framebuffer on a surface, or on a buffer object if there is none. -/
structure Framebuffer where
  surface : Option SurfaceId
  bpp : ℕ
  pitch : ℕ
  width : ℕ
  deriving DecidableEq, Repr

/-- `struct vmw_plane_state`. A plane has a CRTC exactly if it has a framebuffer. -/
structure PlaneState where
  surf : Option SurfaceId
  pinned : ℕ
  contentFbType : StduContentType
  cpp : ℕ
  fb : Option Framebuffer
  crtcW : ℕ
  crtcH : ℕ
  deriving DecidableEq, Repr

/-- `bound` is the surface in the last command that bound one to the target. -/
structure Stdu where
  defined : Bool
  bound : Option SurfaceId
  displaySrf : Option SurfaceId
  contentFbType : StduContentType
  cpp : ℕ
  deriving DecidableEq, Repr

/-- The surfaces, with the pins and the references that plane states hold on them, and the
    display units. `pinnedUnref` notes an unreference through a state that has its pin. -/
structure Rest (ι : Type*) where
  surfaces : SurfaceId → Surface
  made : ℕ
  pins : SurfaceId → ℤ
  refs : SurfaceId → ℤ
  pinnedUnref : Bool
  cap3d : Bool
  stdu : ι → Stdu

variable {ι : Type*}

section Functions

def vmwSurfaceReference (x : SurfaceId) (d : Rest ι) : Rest ι :=
  { d with refs := Function.update d.refs x (d.refs x + 1) }

/-- `vmw_surface_unreference(&vps->surf)`, where there is one. -/
def unreferenceSurf (v : PlaneState) (d : Rest ι) : PlaneState × Rest ι :=
  match v.surf with
  | none => (v, d)
  | some x =>
    ({ v with surf := none },
      { d with
        refs := Function.update d.refs x (d.refs x - 1)
        pinnedUnref := d.pinnedUnref || decide (v.pinned ≠ 0) })

structure Asked where
  fb : Option Framebuffer
  crtcW : ℕ
  crtcH : ℕ
  deriving DecidableEq, Repr

def vmwDuPlaneDuplicateState (k : Asked) (v : PlaneState) (d : Rest ι) : PlaneState × Rest ι :=
  ({ v with pinned := 0, cpp := 0, fb := k.fb, crtcW := k.crtcW, crtcH := k.crtcH },
    match v.surf with
    | none => d
    | some x => vmwSurfaceReference x d)

def vmwDuPlaneDestroyState (v : PlaneState) (d : Rest ι) : Rest ι := (unreferenceSurf v d).2

/-- `vmw_du_plane_cleanup_fb`: the surface is unpinned and still referenced. -/
def vmwDuPlaneCleanupFb (v : PlaneState) (d : Rest ι) : PlaneState × Rest ι :=
  match v.surf with
  | none => (v, d)
  | some x =>
    if v.pinned = 0 then (v, d)
    else
      ({ v with pinned := v.pinned - 1 }, { d with pins := Function.update d.pins x (d.pins x - 1) })

def vmwStduPrimaryPlaneCleanupFb (v : PlaneState) (d : Rest ι) : PlaneState × Rest ι :=
  let r := vmwDuPlaneCleanupFb v d
  ({ r.1 with contentFbType := .sameAsDisplay, cpp := 0 }, r.2)

/-- What `vmw_surface_gb_priv_define` and `vmw_resource_pin` return. -/
structure PrepareEnds where
  define : Option Errno
  pin : Option Errno
  deriving DecidableEq, Repr

/-- The type of content that a framebuffer makes for a plane of that size. -/
def newContentType (d : Rest ι) (fb : Framebuffer) (v : PlaneState) : StduContentType :=
  match fb.surface with
  | none => .separateBo
  | some x =>
    if (d.surfaces x).width = v.crtcW ∧ (d.surfaces x).height = v.crtcH then .sameAsDisplay
    else .separateSurface

/-- The format for a buffer object with so many bits in a pixel. -/
def boFormat : ℕ → Option ℕ
  | 32 => some 1
  | 16 => some 3
  | 8 => some 97
  | _ => none

def contentFormat (d : Rest ι) (fb : Framebuffer) : Option ℕ :=
  match fb.surface with
  | none => boFormat fb.bpp
  | some x => some (d.surfaces x).format

/-- A surface of its own for the plane, that of the old state if it is of the same kind. -/
def displaySurface (ret : Option Errno) (wanted : Surface) (v : PlaneState) (d : Rest ι) :
    Option Errno × PlaneState × Rest ι :=
  let r := match v.surf with
    | some x => if d.surfaces x = wanted then (v, d) else unreferenceSurf v d
    | none => (v, d)
  match r.1.surf, ret with
  | some _, _ => (none, r)
  | none, some e => (some e, r)
  | none, none =>
    let x := SurfaceId.display r.2.made
    (none, { r.1 with surf := some x },
      vmwSurfaceReference x
        { r.2 with
          surfaces := Function.update r.2.surfaces x wanted
          made := r.2.made + 1 })

def framebufferSurface (x : SurfaceId) (v : PlaneState) (d : Rest ι) : PlaneState × Rest ι :=
  let r := unreferenceSurf v d
  ({ r.1 with surf := some x }, vmwSurfaceReference x r.2)

def newSurface (ret : Option Errno) (fb : Framebuffer) (v : PlaneState) (d : Rest ι) :
    Option Errno × PlaneState × Rest ι :=
  match newContentType d fb v, fb.surface with
  | .sameAsDisplay, some x => (none, framebufferSurface x v d)
  | _, _ =>
    match contentFormat d fb with
    | none => (some .einval, v, d)
    | some format => displaySurface ret ⟨v.crtcW, v.crtcH, format⟩ v d

def pinSurf (ret : Option Errno) (v : PlaneState) (d : Rest ι) : Option Errno × PlaneState × Rest ι :=
  match v.surf, ret with
  | none, _ => (none, v, d)
  | some _, some e => (some e, unreferenceSurf v d)
  | some x, none =>
    (none, { v with pinned := v.pinned + 1 },
      { d with pins := Function.update d.pins x (d.pins x + 1) })

def vmwStduPrimaryPlanePrepareFb (o : PrepareEnds) (v : PlaneState) (d : Rest ι) :
    Bool × PlaneState × Rest ι :=
  match v.fb with
  | none => (true, unreferenceSurf v d)
  | some fb =>
    let type := newContentType d fb v
    match newSurface o.define fb v d with
    | (some _, r) => (false, r)
    | (none, r) =>
      match pinSurf o.pin r.1 r.2 with
      | (some _, r) => (false, r)
      | (none, r) =>
        (true, { r.1 with
          contentFbType := type
          cpp := if type = .separateBo ∧ r.2.cap3d = false then fb.pitch / fb.width else r.1.cpp }, r.2)

/-- Whether the reservations for binding, destroying and defining succeed. -/
structure Reservations where
  bind : Bool
  destroy : Bool
  define : Bool
  deriving DecidableEq, Repr

def vmwStduBindSt (ok : Bool) (x : Option SurfaceId) (t : Stdu) : Stdu :=
  if t.defined && ok then { t with bound := x } else t

def vmwStduDestroySt (ok : Bool) (t : Stdu) : Stdu :=
  if t.defined && ok then { t with defined := false, bound := none } else t

def vmwStduDefineSt (ok : Bool) (t : Stdu) : Stdu := if ok then { t with defined := true } else t

/-- `vmw_stdu_crtc_helper_disable`, with which `vmw_stdu_crtc_mode_set_nofb` begins. -/
def vmwStduCrtcHelperDisable (o : Reservations) (t : Stdu) : Stdu :=
  if t.defined then
    { vmwStduDestroySt o.destroy (vmwStduBindSt o.bind none t) with contentFbType := .sameAsDisplay }
  else t

/-- A mode is set for a CRTC that stays enabled, or the CRTC is disabled. -/
inductive CrtcCall where
  | modeSetNofb (o : Reservations)
  | disable (o : Reservations)
  deriving DecidableEq, Repr

def crtcCall : CrtcCall → Stdu → Stdu
  | .modeSetNofb o, t => vmwStduDefineSt o.define (vmwStduCrtcHelperDisable o t)
  | .disable o, t => vmwStduCrtcHelperDisable o t

/-- Called for a plane that has a CRTC, or had one before. -/
def vmwStduPrimaryPlaneAtomicUpdate (ok : Bool) (old new : PlaneState) (t : Stdu) : Stdu :=
  match new.fb, old.fb with
  | some _, _ =>
    vmwStduBindSt ok new.surf
      { t with
        displaySrf := new.surf
        contentFbType := new.contentFbType
        cpp := new.cpp }
  | none, some _ => vmwStduBindSt ok none t
  | none, none => t

end Functions

section Planes
variable [DecidableEq ι]

def Rest.setStdu (d : Rest ι) (u : ι) (t : Stdu) : Rest ι :=
  { d with stdu := Function.update d.stdu u t }

def planeFuncs : PlaneFuncs ι PlaneState (Rest ι) Asked PrepareEnds CrtcCall Bool where
  duplicateState := vmwDuPlaneDuplicateState
  prepareFb := vmwStduPrimaryPlanePrepareFb
  modeSet u x _ d := d.setStdu u (crtcCall x (d.stdu u))
  atomicUpdate u ok old new d :=
    d.setStdu u (vmwStduPrimaryPlaneAtomicUpdate ok old new (d.stdu u))
  cleanupFb := vmwStduPrimaryPlaneCleanupFb
  destroyState := vmwDuPlaneDestroyState

def blank : PlaneState := ⟨none, 0, .sameAsDisplay, 0, none, 0, 0⟩

/-- Planes that show nothing, and units without a target. -/
def init (surfaces : SurfaceId → Surface) (cap3d : Bool) : Device ι PlaneState (Rest ι) where
  lanes _ := ⟨blank, none, none, [], []⟩
  rest :=
    { surfaces := surfaces
      made := 0
      pins := fun _ => 0
      refs := fun _ => 0
      pinnedUnref := false
      cap3d := cap3d
      stdu := fun _ => ⟨false, none, none, .sameAsDisplay, 0⟩ }

def reserves : ι × LaneOp Asked PrepareEnds CrtcCall Bool → Prop
  | (_, .modeSet (.modeSetNofb o)) => o = ⟨true, true, true⟩
  | (_, .modeSet (.disable o)) => o.bind = true ∧ o.destroy = true
  | (_, .update ok) => ok = true
  | _ => True

end Planes

def pinsOn (x : SurfaceId) (v : PlaneState) : ℤ := v.pinned * mark v.surf x

def refsOn (x : SurfaceId) (v : PlaneState) : ℤ := mark v.surf x

/-- The stages: only a prepared state is pinned, and it shows its framebuffer. -/
def good : Stage → PlaneState → Prop
  | .prepared, v => (v.surf.isSome ↔ v.fb.isSome) ∧ v.pinned = if v.surf.isSome then 1 else 0
  | _, v => v.pinned = 0

/-- References and pins go with the state object, and no unit is touched. -/
structure Balanced (v : PlaneState) (d : Rest ι) (v' : PlaneState) (d' : Rest ι) : Prop where
  refs : ∀ x, d'.refs x + refsOn x v = d.refs x + refsOn x v'
  pins : ∀ x, d'.pins x + pinsOn x v = d.pins x + pinsOn x v'
  unref : d'.pinnedUnref = d.pinnedUnref
  stdu : d'.stdu = d.stdu

variable {v v' w : PlaneState} {d d' : Rest ι} {x : SurfaceId} {fb : Framebuffer}

theorem Balanced.refl (v : PlaneState) (d : Rest ι) : Balanced v d v d :=
  ⟨fun _ => rfl, fun _ => rfl, rfl, rfl⟩

theorem Balanced.trans {d'' : Rest ι} (h : Balanced v d v' d') (h' : Balanced v' d' w d'') :
    Balanced v d w d'' := by
  refine ⟨fun x => ?_, fun x => ?_, h'.unref.trans h.unref, h'.stdu.trans h.stdu⟩
  · have := h.refs x
    have := h'.refs x
    omega
  · have := h.pins x
    have := h'.pins x
    omega

theorem pinsOn_unpinned (h : v.pinned = 0) (x : SurfaceId) : pinsOn x v = 0 := by
  rw [pinsOn, h, Nat.cast_zero, zero_mul]

theorem balanced_reference (hsurf : v.surf = none) (hpinned : v.pinned = 0) (x : SurfaceId) :
    Balanced v d { v with surf := some x } (vmwSurfaceReference x d) := by
  refine ⟨fun y => ?_, fun y => ?_, rfl, rfl⟩
  · simp [vmwSurfaceReference, update_add_mark, refsOn, hsurf]
  · rw [pinsOn_unpinned hpinned, pinsOn_unpinned (v := { v with surf := some x }) hpinned]
    rfl

structure Unpinned (v v' : PlaneState) : Prop where
  pinned : v'.pinned = v.pinned
  fb : v'.fb = v.fb

theorem unreferenceSurf_fields (v : PlaneState) (d : Rest ι) :
    (unreferenceSurf v d).1 = { v with surf := none } := by
  obtain ⟨surf, _⟩ := v
  cases surf <;> rfl

theorem unpinned_unreference (v : PlaneState) (d : Rest ι) : Unpinned v (unreferenceSurf v d).1 := by
  rw [unreferenceSurf_fields]
  exact ⟨rfl, rfl⟩

theorem balanced_unreference (hpinned : v.pinned = 0) :
    Balanced v d (unreferenceSurf v d).1 (unreferenceSurf v d).2 := by
  unfold unreferenceSurf
  cases hsurf : v.surf with
  | none => exact .refl v d
  | some x =>
    refine ⟨fun y => ?_, fun y => ?_, ?_, rfl⟩
    · simp [update_sub_mark, refsOn, hsurf]
    · rw [pinsOn_unpinned hpinned, pinsOn_unpinned (v := { v with surf := none }) hpinned]
    · simp [hpinned]

theorem framebufferSurface_spec (hpinned : v.pinned = 0) (x : SurfaceId) (d : Rest ι) :
    Balanced v d (framebufferSurface x v d).1 (framebufferSurface x v d).2 ∧
      Unpinned v (framebufferSurface x v d).1 ∧ (framebufferSurface x v d).1.surf = some x := by
  have hsame := unpinned_unreference v d
  refine ⟨(balanced_unreference hpinned).trans (balanced_reference ?_ ?_ x),
    ⟨hsame.pinned, hsame.fb⟩, rfl⟩
  · rw [unreferenceSurf_fields]
  · exact hsame.pinned.trans hpinned

theorem displaySurface_spec (hpinned : v.pinned = 0) (ret : Option Errno) (wanted : Surface)
    (d : Rest ι) :
    let r := displaySurface ret wanted v d
    Balanced v d r.2.1 r.2.2 ∧ Unpinned v r.2.1 ∧ (r.1 = none → r.2.1.surf.isSome = true) := by
  have hkept : ∃ v' d', (match v.surf with
      | some x => if d.surfaces x = wanted then (v, d) else unreferenceSurf v d
      | none => (v, d)) = (v', d') ∧ Balanced v d v' d' ∧ Unpinned v v' := by
    cases v.surf with
    | none => exact ⟨v, d, rfl, .refl v d, rfl, rfl⟩
    | some x =>
      dsimp only
      split_ifs
      · exact ⟨v, d, rfl, .refl v d, rfl, rfl⟩
      · exact ⟨(unreferenceSurf v d).1, (unreferenceSurf v d).2, rfl, balanced_unreference hpinned,
          unpinned_unreference v d⟩
  obtain ⟨v', d', hr, hbalanced, hsame⟩ := hkept
  unfold displaySurface
  simp only [hr]
  cases hsurf : v'.surf with
  | some x => exact ⟨hbalanced, hsame, fun _ => by rw [hsurf]; rfl⟩
  | none =>
    cases ret with
    | some e => exact ⟨hbalanced, hsame, fun h => by cases h⟩
    | none =>
      refine ⟨hbalanced.trans ?_, ⟨hsame.pinned, hsame.fb⟩, fun _ => rfl⟩
      have href := balanced_reference (d := { d' with
        surfaces := Function.update d'.surfaces (.display d'.made) wanted
        made := d'.made + 1 }) hsurf (hsame.pinned.trans hpinned) (.display d'.made)
      exact ⟨href.refs, href.pins, href.unref, href.stdu⟩

theorem newSurface_spec (hpinned : v.pinned = 0) (ret : Option Errno) (fb : Framebuffer)
    (d : Rest ι) :
    let r := newSurface ret fb v d
    Balanced v d r.2.1 r.2.2 ∧ Unpinned v r.2.1 ∧ (r.1 = none → r.2.1.surf.isSome = true) := by
  unfold newSurface
  split
  · obtain ⟨hbalanced, hsame, hsurf⟩ := framebufferSurface_spec hpinned _ d
    exact ⟨hbalanced, hsame, fun _ => by rw [hsurf]; rfl⟩
  · split
    · exact ⟨.refl v d, ⟨rfl, rfl⟩, fun h => by cases h⟩
    · exact displaySurface_spec hpinned ret _ d

theorem pinSurf_spec (hpinned : v.pinned = 0) (hsome : v.surf.isSome = true) (ret : Option Errno)
    (d : Rest ι) :
    let r := pinSurf ret v d
    Balanced v d r.2.1 r.2.2 ∧ r.2.1.fb = v.fb ∧ (r.1 ≠ none → r.2.1.pinned = 0) ∧
      (r.1 = none → r.2.1.surf.isSome = true ∧ r.2.1.pinned = 1) := by
  obtain ⟨x, hsurf⟩ := Option.isSome_iff_exists.1 hsome
  unfold pinSurf
  rw [hsurf]
  cases ret with
  | some e =>
    have hsame := unpinned_unreference v d
    exact ⟨balanced_unreference hpinned, hsame.fb, fun _ => hsame.pinned.trans hpinned,
      fun h => by cases h⟩
  | none =>
    refine ⟨⟨fun y => ?_, fun y => ?_, rfl, rfl⟩, rfl, fun h => absurd rfl h,
      fun _ => ⟨rfl, by rw [hpinned]⟩⟩
    · simp only [refsOn, hsurf]
    · simp [update_add_mark, pinsOn, hsurf, hpinned]

theorem prepareFb_spec (hpinned : v.pinned = 0) (o : PrepareEnds) (d : Rest ι) :
    ∃ b v' d', vmwStduPrimaryPlanePrepareFb o v d = (b, v', d') ∧ Balanced v d v' d' ∧
      good (if b then .prepared else .spent) v' := by
  unfold vmwStduPrimaryPlanePrepareFb
  cases hfb : v.fb with
  | none =>
    refine ⟨true, (unreferenceSurf v d).1, (unreferenceSurf v d).2, rfl,
      balanced_unreference hpinned, ?_⟩
    rw [if_pos rfl, unreferenceSurf_fields]
    exact ⟨by simp [hfb], hpinned⟩
  | some fb =>
    obtain ⟨hbalanced, hsame, hsurf⟩ := newSurface_spec hpinned o.define fb d
    rcases hnew : newSurface o.define fb v d with ⟨_ | e, v', d'⟩ <;> rw [hnew] at hbalanced hsame hsurf
    · obtain ⟨hbalanced', hfb', hfails, hpins⟩ :=
        pinSurf_spec (hsame.pinned.trans hpinned) (hsurf rfl) o.pin d'
      simp only [hnew]
      rcases hpin : pinSurf o.pin v' d' with ⟨_ | e, w, d''⟩ <;>
        rw [hpin] at hbalanced' hfb' hfails hpins
      · have hboth := hbalanced.trans hbalanced'
        obtain ⟨hsome, hone⟩ := hpins rfl
        refine ⟨_, _, _, rfl, ⟨hboth.refs, hboth.pins, hboth.unref, hboth.stdu⟩, ?_⟩
        have hshown : w.fb.isSome = true := by rw [hfb', hsame.fb, hfb]; rfl
        exact ⟨iff_of_true hsome hshown, by rw [if_pos hsome]; exact hone⟩
      · exact ⟨_, _, _, rfl, hbalanced.trans hbalanced', hfails (by simp)⟩
    · simp only [hnew]
      exact ⟨_, _, _, rfl, hbalanced, hsame.pinned.trans hpinned⟩

theorem cleanupFb_spec (hv : good .prepared v) (d : Rest ι) :
    let r := vmwStduPrimaryPlaneCleanupFb v d
    Balanced v d r.1 r.2 ∧ r.1.pinned = 0 := by
  obtain ⟨-, hpinned⟩ := hv
  unfold vmwStduPrimaryPlaneCleanupFb vmwDuPlaneCleanupFb
  cases hsurf : v.surf with
  | none =>
    rw [hsurf] at hpinned
    exact ⟨⟨fun _ => rfl, fun _ => rfl, rfl, rfl⟩, hpinned⟩
  | some x =>
    have hone : v.pinned = 1 := by rw [hpinned, hsurf]; rfl
    dsimp only
    rw [if_neg (by omega)]
    refine ⟨⟨fun y => by simp only [refsOn, hsurf], fun y => ?_, rfl, rfl⟩, by rw [hone]⟩
    simp [update_sub_mark, pinsOn, hsurf, hone]

theorem duplicateState_spec (k : Asked) (v : PlaneState) (d : Rest ι) :
    let r := vmwDuPlaneDuplicateState k v d
    (∀ x, r.2.refs x = d.refs x + refsOn x r.1) ∧ r.2.pins = d.pins ∧
      r.2.pinnedUnref = d.pinnedUnref ∧ r.2.stdu = d.stdu := by
  unfold vmwDuPlaneDuplicateState
  cases hsurf : v.surf with
  | none => exact ⟨fun x => by simp [refsOn], rfl, rfl, rfl⟩
  | some x =>
    exact ⟨fun y => by simp [refsOn, vmwSurfaceReference, update_add_mark], rfl, rfl, rfl⟩

theorem destroyState_spec (hpinned : v.pinned = 0) (d : Rest ι) :
    let d' := vmwDuPlaneDestroyState v d
    (∀ x, d'.refs x + refsOn x v = d.refs x) ∧ (∀ x, d'.pins x + pinsOn x v = d.pins x) ∧
      d'.pinnedUnref = d.pinnedUnref ∧ d'.stdu = d.stdu := by
  obtain ⟨hrefs, hpins, hunref, hstdu⟩ := balanced_unreference (d := d) hpinned
  rw [unreferenceSurf_fields] at hrefs hpins
  exact ⟨fun x => (hrefs x).trans (add_zero _), fun x => (hpins x).trans (add_zero _), hunref, hstdu⟩

section Planes
variable [DecidableEq ι]

theorem unprepared {c : Stage} (hc : c ≠ .prepared) (h : good c v) : v.pinned = 0 := by
  cases c with
  | prepared => exact absurd rfl hc
  | fresh => exact h
  | spent => exact h

theorem staged : Staged (planeFuncs (ι := ι)) good where
  duplicate _ _ _ _ := rfl
  prepare e v d h := by
    obtain ⟨b, v', d', he, -, hgood⟩ := prepareFb_spec h e d
    change good (if (vmwStduPrimaryPlanePrepareFb e v d).1 then _ else _)
      (vmwStduPrimaryPlanePrepareFb e v d).2.1
    rw [he]
    exact hgood
  cleanup v d h := (cleanupFb_spec h d).2

theorem counts_of {f : PlaneState → ℤ} {g : Rest ι → ℤ}
    (hdup : ∀ k v d, g (vmwDuPlaneDuplicateState k v d).2 = g d + f (vmwDuPlaneDuplicateState k v d).1)
    (hbalanced : ∀ v d v' d', Balanced v d v' d' → g d' + f v = g d + f v')
    (hstdu : ∀ (d : Rest ι) u t, g (d.setStdu u t) = g d)
    (hdestroy : ∀ v d, v.pinned = 0 → g (vmwDuPlaneDestroyState v d) + f v = g d) :
    Counts planeFuncs good (fun _ => f) g where
  duplicate k v d _ := hdup k v d
  prepare e v d h := by
    obtain ⟨b, v', d', he, hb, -⟩ := prepareFb_spec h e d
    change g (vmwStduPrimaryPlanePrepareFb e v d).2.2 + f v =
      g d + f (vmwStduPrimaryPlanePrepareFb e v d).2.1
    rw [he]
    exact hbalanced v d v' d' hb
  modeSet _ _ _ _ := hstdu _ _ _
  update _ _ _ _ _ := hstdu _ _ _
  cleanup v d h := hbalanced _ _ _ _ (cleanupFb_spec h d).1
  destroy c v d hc h := hdestroy v d (unprepared hc h)

theorem counts_refs (x : SurfaceId) :
    Counts (planeFuncs (ι := ι)) good (fun _ => refsOn x) fun d => d.refs x :=
  counts_of (fun k v d => (duplicateState_spec k v d).1 x) (fun _ _ _ _ h => h.refs x)
    (fun _ _ _ => rfl) fun _ d h => (destroyState_spec h d).1 x

theorem counts_pins (x : SurfaceId) :
    Counts (planeFuncs (ι := ι)) good (fun _ => pinsOn x) fun d => d.pins x :=
  counts_of
    (fun k v d => by
      rw [(duplicateState_spec k v d).2.1, pinsOn_unpinned (v := (vmwDuPlaneDuplicateState k v d).1) rfl,
        add_zero])
    (fun _ _ _ _ h => h.pins x) (fun _ _ _ => rfl) fun _ d h => (destroyState_spec h d).2.1 x

theorem counts_pinnedUnref : Counts (planeFuncs (ι := ι)) good (fun _ _ => 0) fun d =>
    if d.pinnedUnref then 1 else 0 :=
  counts_of (fun k v d => by rw [(duplicateState_spec k v d).2.2.1, add_zero])
    (fun _ _ _ _ h => by rw [h.unref]) (fun _ _ _ => rfl)
    fun _ d h => by rw [(destroyState_spec h d).2.2.1, add_zero]

/-- A target shows the surface of the state that is to be replaced in the next update, or else of
    the current one. -/
def Shows (u : ι) (L : Lane PlaneState) (d : Rest ι) : Prop :=
  ((d.stdu u).defined = false → (d.stdu u).bound = none) ∧
    ∀ x, (d.stdu u).bound = some x → (L.replaced.getD L.current).surf = some x

theorem setStdu_self (d : Rest ι) (u : ι) (t : Stdu) : (d.setStdu u t).stdu u = t :=
  Function.update_self _ _ _

theorem setStdu_ne (d : Rest ι) {u w : ι} (h : w ≠ u) (t : Stdu) : (d.setStdu u t).stdu w = d.stdu w :=
  Function.update_of_ne h _ _

theorem helperDisable_blank {o : Reservations} (hbind : o.bind = true) (hdestroy : o.destroy = true)
    {t : Stdu} (h : t.defined = false → t.bound = none) :
    (vmwStduCrtcHelperDisable o t).bound = none := by
  unfold vmwStduCrtcHelperDisable
  split_ifs with hdefined
  · simp [vmwStduDestroySt, vmwStduBindSt, hbind, hdestroy, hdefined]
  · exact h (by simpa using hdefined)

omit [DecidableEq ι] in
theorem crtcCall_blank {u : ι} {call : CrtcCall} (hok : reserves (u, .modeSet call)) {t : Stdu}
    (h : t.defined = false → t.bound = none) : (crtcCall call t).bound = none := by
  cases call with
  | modeSetNofb o =>
    have hok : o = ⟨true, true, true⟩ := hok
    subst hok
    exact helperDisable_blank rfl rfl h
  | disable o => exact helperDisable_blank hok.1 hok.2 h

theorem bindSt_shows {x : Option SurfaceId} {t : Stdu} (h : t.defined = false → t.bound = none) :
    let t' := vmwStduBindSt true x t
    (t'.defined = false → t'.bound = none) ∧ (t'.bound = x ∨ t'.bound = none) := by
  unfold vmwStduBindSt
  cases hdefined : t.defined with
  | false => exact ⟨fun _ => h hdefined, .inr (h hdefined)⟩
  | true => exact ⟨fun hd => by simp at hd, .inl rfl⟩

theorem atomicUpdate_shows {v w : PlaneState} {t : Stdu} (hv : good .prepared v)
    (hdefined : t.defined = false → t.bound = none) (h : ∀ x, t.bound = some x → v.surf = some x) :
    let t' := vmwStduPrimaryPlaneAtomicUpdate true v w t
    (t'.defined = false → t'.bound = none) ∧ ∀ x, t'.bound = some x → w.surf = some x := by
  unfold vmwStduPrimaryPlaneAtomicUpdate
  split
  · obtain ⟨hnone, hshows⟩ := bindSt_shows (x := w.surf) (t := { t with
      displaySrf := w.surf
      contentFbType := w.contentFbType
      cpp := w.cpp }) hdefined
    refine ⟨hnone, fun x hx => ?_⟩
    obtain hshows | hshows := hshows
    · exact hshows.symm.trans hx
    · rw [hshows] at hx
      cases hx
  · obtain ⟨hnone, hshows⟩ := bindSt_shows (x := none) hdefined
    refine ⟨hnone, fun x hx => ?_⟩
    rw [or_self_iff.1 hshows] at hx
    cases hx
  -- no framebuffer before and after: there was no surface to show either
  · rename_i hfb
    refine ⟨hdefined, fun x hx => ?_⟩
    have hsome := hv.1.1 (by rw [h x hx]; rfl)
    rw [hfb] at hsome
    cases hsome

theorem stdu_of_laneTo {L L' : Lane PlaneState} {u w : ι} {a : LaneOp Asked PrepareEnds CrtcCall Bool}
    (hL : LaneOk good L) (h : LaneTo planeFuncs u L d a L' d')
    (ha : w ≠ u ∨ (∀ c, a ≠ .modeSet c) ∧ ∀ ok, a ≠ .update ok) : d'.stdu w = d.stdu w := by
  cases h with
  | duplicate k h => exact congrFun (duplicateState_spec k _ d).2.2.2 w
  | prepare e v h =>
    obtain ⟨b, v', d', he, hb, -⟩ := prepareFb_spec (hL.next _ h) e d
    change (vmwStduPrimaryPlanePrepareFb e v d).2.2.stdu w = d.stdu w
    rw [he]
    exact congrFun hb.stdu w
  | rollBack v h => exact congrFun (cleanupFb_spec (hL.next _ h) d).1.stdu w
  | discard c v hc h => exact congrFun (destroyState_spec (unprepared hc (hL.next _ h)) d).2.2.2 w
  | swap v h hr => rfl
  | modeSet c v h => exact setStdu_ne d (ha.resolve_right fun ha => ha.1 c rfl) _
  | update ok v h => exact setStdu_ne d (ha.resolve_right fun ha => ha.2 ok rfl) _
  | cleanup n v h =>
    exact congrFun (cleanupFb_spec (hL.updated v (List.mem_of_getElem? h)) d).1.stdu w
  | destroy n v h =>
    exact congrFun (destroyState_spec (v := v) (hL.cleaned v (List.mem_of_getElem? h)) d).2.2.2 w

theorem Shows.to {L L' : Lane PlaneState} {u : ι} {a : LaneOp Asked PrepareEnds CrtcCall Bool}
    (hL : LaneOk good L) (hok : reserves (u, a)) (hs : Shows u L d)
    (h : LaneTo planeFuncs u L d a L' d') : Shows u L' d' := by
  obtain ⟨hnone, hshows⟩ := hs
  have hkept := stdu_of_laneTo (w := u) hL h
  unfold Shows
  cases h with
  | modeSet c v h =>
    have hblank := crtcCall_blank hok hnone
    change (((d.setStdu u (crtcCall c (d.stdu u))).stdu u).defined = false → _) ∧ _
    simp only [planeFuncs, setStdu_self, hblank]
    exact ⟨fun _ => trivial, fun x hx => by cases hx⟩
  | update ok v h =>
    have hok : ok = true := hok
    subst hok
    rw [h] at hshows
    simp only [planeFuncs, setStdu_self]
    exact atomicUpdate_shows (hL.replaced v h) hnone hshows
  | swap v h hr =>
    rw [hr] at hshows
    exact ⟨hnone, hshows⟩
  | duplicate | prepare | rollBack | discard | cleanup | destroy =>
    rw [hkept (.inr ⟨fun _ ha => (by cases ha), fun _ ha => (by cases ha)⟩)]
    exact ⟨hnone, hshows⟩

/-- The counters for pins and references are sums over the state objects, no state drops its
    reference before its pin, and, where all reservations succeed, what a target shows is held
    by the state object that it was taken from. -/
theorem surfaces_pinned [Fintype ι] {surfaces : SurfaceId → Surface} {cap3d : Bool}
    {as : List (ι × LaneOp Asked PrepareEnds CrtcCall Bool)} {s : Device ι PlaneState (Rest ι)}
    (h : Runs (step planeFuncs) anyLabel (init surfaces cap3d) as s) :
    (∀ x, s.rest.pins x = ∑ u, total (fun _ => pinsOn x) (s.lanes u)) ∧ s.rest.pinnedUnref = false ∧
      ((∀ a ∈ as, reserves a) → ∀ u x, (s.rest.stdu u).defined = true →
        (s.rest.stdu u).bound = some x →
          let shown := (s.lanes u).replaced.getD (s.lanes u).current
          shown.surf = some x ∧ shown.pinned = 1 ∧ 0 < s.rest.refs x ∧ 0 < s.rest.pins x) := by
  have hinit : ∀ u, LaneOk good ((init (ι := ι) surfaces cap3d).lanes u) := fun u =>
    { current := ⟨Iff.rfl, rfl⟩
      next := fun _ hx => by cases hx
      replaced := fun _ hx => by cases hx
      updated := fun _ hx => by cases hx
      cleaned := fun _ hx => by cases hx }
  have hpins : ∀ x, s.rest.pins x = ∑ u, total (fun _ => pinsOn x) (s.lanes u) := fun x =>
    counted_of_runs staged (counts_pins x) h hinit (by simp [init, total, Lane.states, pinsOn, blank])
  have hrefs : ∀ x, s.rest.refs x = ∑ u, total (fun _ => refsOn x) (s.lanes u) := fun x =>
    counted_of_runs staged (counts_refs x) h hinit (by simp [init, total, Lane.states, refsOn, blank])
  refine ⟨hpins, ?_, fun hall u x hdefined hbound => ?_⟩
  · have hunref := counted_of_runs staged counts_pinnedUnref h hinit
      (by simp [init, total, Lane.states])
    simpa [total] using hunref
  · have hrun := h.restrict hall
    have hok := lanesOk_of_runs staged h hinit u
    have hshows : Shows u (s.lanes u) s.rest :=
      planes_of_runs staged hrun hinit (fun u => ⟨fun _ => rfl, fun _ hx => by cases hx⟩)
        (fun s u a L d hs hok hQ hto => hQ.to (hs u) hok hto)
        (fun s u a L d w hw hs hQ hto => by
          unfold Shows
          rw [stdu_of_laneTo (hs u) hto (.inl hw)]
          exact hQ) u
    have hsurf := hshows.2 x hbound
    have hheld := replaced_mem_states (s.lanes u)
    have hone : ((s.lanes u).replaced.getD (s.lanes u).current).pinned = 1 := by
      rw [hok.shown.2, hsurf]
      rfl
    refine ⟨hsurf, hone, ?_, ?_⟩
    · have hle := le_counted (f := fun _ => refsOn x) (fun _ v => mark_nonneg v.surf x) hheld
      rw [refsOn, mark_of_eq hsurf] at hle
      have := hrefs x
      omega
    · have hle := le_counted (f := fun _ => pinsOn x)
        (fun _ v => mul_nonneg (Nat.cast_nonneg _) (mark_nonneg v.surf x)) hheld
      rw [pinsOn, mark_of_eq hsurf, hone, Nat.cast_one, one_mul] at hle
      have := hpins x
      omega

section Run

def flipTo (n : ℕ) : List (Unit × LaneOp Asked PrepareEnds CrtcCall Bool) :=
  [((), .duplicate ⟨some ⟨some (.user n), 32, 256, 64⟩, 64, 64⟩), ((), .prepare ⟨none, none⟩), ((), .swap)]

/-- A pin that fails, a new state that is rolled back, and one that is shown. -/
def targetRun : List (Unit × LaneOp Asked PrepareEnds CrtcCall Bool) :=
  [((), .duplicate ⟨some ⟨none, 32, 256, 64⟩, 64, 64⟩), ((), .prepare ⟨none, some .enomem⟩),
    ((), .discard), ((), .duplicate ⟨some ⟨none, 32, 256, 64⟩, 64, 64⟩), ((), .prepare ⟨none, none⟩),
    ((), .rollBack), ((), .discard)] ++ flipTo 0 ++
    [((), .modeSet (.modeSetNofb ⟨true, true, true⟩)), ((), .update true)]

def oneUnit : Device Unit PlaneState (Rest Unit) := init (fun _ => ⟨64, 64, 1⟩) true

def runEnd (as : List (Unit × LaneOp Asked PrepareEnds CrtcCall Bool)) :
    Device Unit PlaneState (Rest Unit) := (exec (step planeFuncs) oneUnit as).getD oneUnit

theorem targetRun_pinned : ((runEnd targetRun).rest.stdu ()).bound = some (.user 0) ∧
    0 < (runEnd targetRun).rest.pins (.user 0) :=
  have hrun := surfaces_pinned (runs_getD (d := oneUnit) (by decide))
  ⟨by decide, (hrun.2.2 (by simp [targetRun, flipTo, reserves]) () (.user 0) (by decide) (by decide)).2.2.2⟩

/-- A state that is swapped in for another surface is current before its surface is bound. -/
theorem replaced_shown : Runs (step planeFuncs) anyLabel oneUnit (targetRun ++ flipTo 1)
      (runEnd (targetRun ++ flipTo 1)) ∧ (∀ a ∈ targetRun ++ flipTo 1, reserves a) ∧
    ((runEnd (targetRun ++ flipTo 1)).rest.stdu ()).defined = true ∧
      ((runEnd (targetRun ++ flipTo 1)).rest.stdu ()).bound = some (.user 0) ∧
        ((runEnd (targetRun ++ flipTo 1)).lanes ()).current.surf = some (.user 1) :=
  ⟨runs_getD (by decide), by simp [targetRun, flipTo, reserves], by decide, by decide, by decide⟩

end Run

end Planes

end Vmwgfx.ScreenTargets

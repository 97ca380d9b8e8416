import Vmwgfx.Extremes
import Vmwgfx.KmsClips

set_option autoImplicit false

/-!
# Transfers between buffers and screen targets

`vmw_kms_stdu_dma` with its two pairs of callbacks: one encodes a surface DMA command for each
unit, the other one, for devices without 3D, does a CPU blit of the bounding box.
-/
namespace Vmwgfx.StduDma
open ExecbufState (Errno)
open Extremes KmsClips Signed32

structure Box where
  left : ℤ
  top : ℤ
  right : ℤ
  bottom : ℤ
  fbLeft : ℤ
  fbTop : ℤ
  deriving DecidableEq, Repr

def emptyBox : Box := ⟨s32Max, s32Max, s32Min, s32Min, s32Max, s32Max⟩

/-- `vmw_stdu_bo_cpu_clip`. -/
def growCpu (b : Box) (d : Dirty) : Box :=
  { left := min b.left d.unitX1
    top := min b.top d.unitY1
    right := max b.right d.unitX2
    bottom := max b.bottom d.unitY2
    fbLeft := min b.fbLeft d.fbX
    fbTop := min b.fbTop d.fbY }

/-- `vmw_stdu_bo_clip` does not follow the content's origin. -/
def growDma (b : Box) (d : Dirty) : Box :=
  { b with
    left := min b.left d.unitX1
    top := min b.top d.unitY1
    right := max b.right d.unitX2
    bottom := max b.bottom d.unitY2 }

/-- "`width == 0 || height == 0`", of differences in `s32`. -/
def Flat (b : Box) : Prop := s32 (b.right - b.left) = 0 ∨ s32 (b.bottom - b.top) = 0

instance (b : Box) : Decidable (Flat b) := by
  unfold Flat
  infer_instance

/-- The display surface of a unit: its id, its backing buffer, the width and bytes per pixel. -/
structure Stdu where
  sid : ℕ
  backup : ℕ
  width : BitVec 32
  cpp : BitVec 32
  deriving DecidableEq, Repr

structure SvgaRect where
  x : ℤ
  y : ℤ
  w : ℤ
  h : ℤ
  deriving DecidableEq, Repr

/-- How the end of a CPU blit goes: the rectangle of differences that the blit reports, and
    whether `vmw_kms_update_proxy` and the last reservation succeed. -/
structure BlitEnd where
  x1 : ℤ
  y1 : ℤ
  x2 : ℤ
  y2 : ℤ
  proxy : Bool
  reserved : Bool
  deriving DecidableEq, Repr

/-- The framebuffer's buffer with its size in pages and its pitch, the direction, whether the
    device lacks 3D, what the validation returns, the display surfaces, and the outcomes of the
    reservations and of the blits, by the number of units before. -/
structure DmaEnv where
  buf : ℕ
  numPages : ℕ
  pitch : BitVec 32
  toSurface : Bool
  cpuBlit : Bool
  prepare : Except Errno Unit
  stdu : DisplayUnit → Stdu
  fifo : ℕ → Bool
  blitEnd : ℕ → BlitEnd

/-- `vmw_stdu_populate_update`: the unit and the rectangle of the command. -/
def populateUpdate (unit : ℕ) (left right top bottom : ℤ) : ℕ × SvgaRect :=
  (unit, ⟨u32 left, u32 top, u32 (right - left), u32 (bottom - top)⟩)

structure BlitArgs where
  dst : ℕ
  dstOffset : ℤ
  dstStride : ℤ
  src : ℕ
  srcOffset : ℤ
  srcStride : ℤ
  w : ℤ
  h : ℤ
  deriving DecidableEq, Repr

/-- A blit with the region it is computed from and the update it was followed by. -/
structure CpuCopy where
  region : Box
  args : BlitArgs
  update : Option (ℕ × SvgaRect)
  deriving DecidableEq, Repr

def blitArgs (env : DmaEnv) (st : Stdu) (b : Box) : BlitArgs :=
  let dstPitch := s32 (st.width.toNat * st.cpp.toNat)
  let dstOffset := u32 (b.top * dstPitch + b.left * st.cpp.toNat)
  let srcPitch := env.pitch.toInt
  let srcOffset := u32 (b.fbTop * srcPitch + b.fbLeft * st.cpp.toNat)
  let w := u32 (s32 (b.right - b.left) * st.cpp.toNat)
  let h := u32 (s32 (b.bottom - b.top))
  if env.toSurface then
    ⟨st.backup, dstOffset, u32 dstPitch, env.buf, srcOffset, u32 srcPitch, w, h⟩
  else ⟨env.buf, srcOffset, u32 srcPitch, st.backup, dstOffset, u32 dstPitch, w, h⟩

/-- The update after a blit to the surface. The region between is one of unsigned shorts. -/
def blitUpdate (env : DmaEnv) (u : DisplayUnit) (e : BlitEnd) : Option (ℕ × SvgaRect) :=
  if env.toSurface ∧ 0 < s32 (e.x2 - e.x1) ∧ 0 < s32 (e.y2 - e.y1) ∧ e.proxy ∧ e.reserved then
    some (populateUpdate u.unit (e.x1 % 2 ^ 16) (e.x2 % 2 ^ 16) (e.y1 % 2 ^ 16) (e.y2 % 2 ^ 16))
  else none

/-- The closure on the CPU path, with the copies it has done, unit by unit. -/
structure CpuState where
  box : Box
  numHits : ℕ
  copies : List (DisplayUnit × Option CpuCopy)
  deriving DecidableEq, Repr

/-- `vmw_stdu_bo_cpu_commit`. A blit without area returns before `out_cleanup`. -/
def cpuCommit (env : DmaEnv) (s : CpuState) (u : DisplayUnit) : CpuState :=
  if s.numHits = 0 then { s with copies := s.copies ++ [(u, none)] }
  else if Flat s.box then { s with copies := s.copies ++ [(u, none)] }
  else
    let copy : CpuCopy := ⟨s.box, blitArgs env (env.stdu u) s.box,
      blitUpdate env u (env.blitEnd s.copies.length)⟩
    { s with box := emptyBox, copies := s.copies ++ [(u, some copy)] }

def cpuOps (env : DmaEnv) : DirtyOps CpuState where
  reserve s _ := some { s with numHits := 0 }
  clip s _ _ d := { s with box := growCpu s.box d, numHits := 1 }
  fifoCommit := cpuCommit env

/-- `SVGA3dCopyBox`, of unsigned numbers. -/
structure CopyBox where
  x : ℤ
  y : ℤ
  z : ℤ
  w : ℤ
  h : ℤ
  d : ℤ
  srcx : ℤ
  srcy : ℤ
  srcz : ℤ
  deriving DecidableEq, Repr

def copyBox (d : Dirty) : CopyBox :=
  ⟨u32 d.unitX1, u32 d.unitY1, 0, u32 (d.unitX2 - d.unitX1), u32 (d.unitY2 - d.unitY1), 1,
    u32 d.fbX, u32 d.fbY, 0⟩

/-- A `SVGA_3D_CMD_SURFACE_DMA` with its boxes and suffix, and the update behind it. -/
structure DmaCmd where
  headerSize : ℕ
  guest : ℕ
  pitch : BitVec 32
  sid : ℕ
  write : Bool
  boxes : List CopyBox
  maximumOffset : ℕ
  update : Option (ℕ × SvgaRect)
  deriving DecidableEq, Repr

structure DmaState where
  box : Box
  boxes : List CopyBox
  cmds : List (DisplayUnit × Option DmaCmd)
  deriving DecidableEq, Repr

/-- `vmw_stdu_bo_clip`: a box at `num_hits`, and the bounding box on the way to the surface. -/
def dmaClip (env : DmaEnv) (s : DmaState) (d : Dirty) : DmaState :=
  { s with
    boxes := s.boxes ++ [copyBox d]
    box := if env.toSurface then growDma s.box d else s.box }

/-- `vmw_stdu_bo_fifo_commit`. The body of the command has 28 bytes, a box 36 and the suffix 12.
    The content's origin is not reset. -/
def dmaCommit (env : DmaEnv) (s : DmaState) (u : DisplayUnit) : DmaState :=
  if s.boxes.length = 0 then { s with cmds := s.cmds ++ [(u, none)] }
  else
    let cmd : DmaCmd :=
      { headerSize := 28 + (36 * s.boxes.length + 12)
        guest := env.buf
        pitch := env.pitch
        sid := (env.stdu u).sid
        write := env.toSurface
        boxes := s.boxes
        maximumOffset := env.numPages * 4096
        update :=
          if env.toSurface then
            some (populateUpdate u.unit s.box.left s.box.right s.box.top s.box.bottom)
          else none }
    { s with
      box := { s.box with left := s32Max, top := s32Max, right := s32Min, bottom := s32Min }
      cmds := s.cmds ++ [(u, some cmd)] }

def dmaOps (env : DmaEnv) : DirtyOps DmaState where
  reserve s _ := if env.fifo s.cmds.length then some { s with boxes := [] } else none
  clip s _ _ d := dmaClip env s d
  fifoCommit := dmaCommit env

/-- What a transfer leaves behind: the CPU copies or the DMA commands, by unit. -/
structure DmaLog where
  copies : List (DisplayUnit × Option CpuCopy)
  cmds : List (DisplayUnit × Option DmaCmd)
  deriving DecidableEq, Repr

def stduArgs (clips : Clips) (numClips increment : BitVec 32) : DirtyArgs :=
  ⟨clips, ⟨0, 0⟩, numClips, increment⟩

def vmwKmsStduDma (env : DmaEnv) (crtcs : List DisplayUnit) (vfb : ℕ) (clips : Clips)
    (numClips increment : BitVec 32) (crtc : Option DisplayUnit) : Except Errno Unit × DmaLog :=
  match env.prepare with
  | .error e => (.error e, ⟨[], []⟩)
  | .ok () =>
    if env.cpuBlit then
      let r := vmwKmsHelperDirty (cpuOps env) crtcs vfb crtc (stduArgs clips numClips increment)
        ⟨emptyBox, 0, []⟩
      (r.1, ⟨r.2.copies, []⟩)
    else
      let r := vmwKmsHelperDirty (dmaOps env) crtcs vfb crtc (stduArgs clips numClips increment)
        ⟨emptyBox, [], []⟩
      (r.1, ⟨[], r.2.cmds⟩)

def grow (b : Box) (ds : List (ℕ × Dirty)) : Box := ds.foldl (fun b d => growCpu b d.2) b

def boxOf (ds : List (ℕ × Dirty)) : Box := grow emptyBox ds

structure Bounding (ds : List (ℕ × Dirty)) (b : Box) : Prop where
  left : IsLeast (values (fun d => d.2.unitX1) ds) b.left
  top : IsLeast (values (fun d => d.2.unitY1) ds) b.top
  right : IsGreatest (values (fun d => d.2.unitX2) ds) b.right
  bottom : IsGreatest (values (fun d => d.2.unitY2) ds) b.bottom

/-- The source starts at the framebuffer coordinates of the region's corner. -/
structure SourceAt (u : DisplayUnit) (b : Box) : Prop where
  x : b.fbLeft = b.left + u.crtcX.toInt
  y : b.fbTop = b.top + u.crtcY.toInt

theorem grow_eq (b : Box) (ds : List (ℕ × Dirty)) :
    grow b ds =
      ⟨foldMin (fun d => d.2.unitX1) b.left ds, foldMin (fun d => d.2.unitY1) b.top ds,
        foldMax (fun d => d.2.unitX2) b.right ds, foldMax (fun d => d.2.unitY2) b.bottom ds,
        foldMin (fun d => d.2.fbX) b.fbLeft ds, foldMin (fun d => d.2.fbY) b.fbTop ds⟩ := by
  induction ds generalizing b with
  | nil => rfl
  | cons d ds ih => exact ih (growCpu b d.2)

structure Ranged (d : Dirty) : Prop where
  x1 : d.unitX1 ≤ s32Max
  y1 : d.unitY1 ≤ s32Max
  x2 : s32Min ≤ d.unitX2
  y2 : s32Min ≤ d.unitY2
  fbX : d.fbX ≤ s32Max
  fbY : d.fbY ≤ s32Max

theorem mem_unitCalls {a : DirtyArgs} {u : DisplayUnit} {d : ℕ × Dirty} (h : d ∈ unitCalls a u) :
    clipCall a.dest u (a.clipAt d.1) = some d.2 := by
  obtain ⟨i, _, hi⟩ := List.mem_filterMap.mp h
  obtain ⟨e, he, rfl⟩ := Option.map_eq_some_iff.mp hi
  exact he

theorem clipCall_some {dest : Dest} {u : DisplayUnit} {c : Clip} {d : Dirty}
    (h : clipCall dest u c = some d) :
    (spanX dest u c).Passes ∧ (spanY dest u c).Passes ∧ d = cutDirty u (startDirty dest u c) := by
  rw [clipCall_eq] at h
  split_ifs at h with hpass
  exact ⟨hpass.1, hpass.2, (Option.some.inj h).symm⟩

theorem unitCalls_ranged {a : DirtyArgs} {u : DisplayUnit} {d : ℕ × Dirty}
    (h : d ∈ unitCalls a u) : Ranged d.2 := by
  obtain ⟨_, _, heq⟩ := clipCall_some (mem_unitCalls h)
  rw [heq, startDirty_eq]
  exact ⟨s32_le _, s32_le _, le_min (le_s32 _) (toInt_mem _).1, le_min (le_s32 _) (toInt_mem _).1,
    s32_le _, s32_le _⟩

theorem bounding_boxOf {ds : List (ℕ × Dirty)} (hne : ds ≠ []) (hds : ∀ d ∈ ds, Ranged d.2) :
    Bounding ds (boxOf ds) := by
  unfold boxOf
  rw [grow_eq]
  exact ⟨foldMin_isLeast hne fun d hd => (hds d hd).x1,
    foldMin_isLeast hne fun d hd => (hds d hd).y1,
    foldMax_isGreatest hne fun d hd => (hds d hd).x2,
    foldMax_isGreatest hne fun d hd => (hds d hd).y2⟩

/-- What the mode setting of the DRM core promises of a CRTC that shows a framebuffer: the mode
    at its origin is within the framebuffer. -/
structure Viewport (u : DisplayUnit) : Prop where
  left : 0 ≤ u.crtcX.toInt
  top : 0 ≤ u.crtcY.toInt
  right : u.crtcX.toInt + u.hdisplay.toInt ≤ s32Max
  bottom : u.crtcY.toInt + u.vdisplay.toInt ≤ s32Max

/-- Where nothing is offset, what is cut of a clip starts in the framebuffer at the distance of
    the CRTC's origin. -/
theorem cut_source {s : Span} {o : ℤ} (hlo : s.lo = s.fb - o) (ho : 0 ≤ o) (ho' : o ≤ s32Max)
    (hsize : o + s.size ≤ s32Max) (hpass : s.Passes) :
    s32 (s.fb - min (s32 s.lo) 0) = s32 (s32 s.lo - min (s32 s.lo) 0) + o := by
  have hin := hpass.1
  obtain ⟨k, hk⟩ := s32_eq_add s.lo
  have hsame : s32 (s.fb - min (s32 s.lo) 0) = s32 (max (s32 s.lo) 0 + o) := by
    unfold s32 at *
    omega
  rw [hsame, Span.s32_sub_min, s32_of_mem (by unfold s32Min; omega) (by omega)]

theorem unitCalls_source {clips : Clips} {n inc : BitVec 32} {u : DisplayUnit} {d : ℕ × Dirty}
    (hview : Viewport u) (h : d ∈ unitCalls (stduArgs clips n inc) u) :
    d.2.fbX = d.2.unitX1 + u.crtcX.toInt ∧ d.2.fbY = d.2.unitY1 + u.crtcY.toInt := by
  obtain ⟨hx, hy, heq⟩ := clipCall_some (mem_unitCalls h)
  rw [heq, startDirty_eq]
  refine ⟨cut_source ?_ hview.left (toInt_mem _).2 ?_ hx,
    cut_source ?_ hview.top (toInt_mem _).2 ?_ hy⟩
  · cases (stduArgs clips n inc).clipAt d.1 <;> simp [spanX, stduArgs]
  · rw [spanX_size]
    exact hview.right
  · cases (stduArgs clips n inc).clipAt d.1 <;> simp [spanY, stduArgs]
  · rw [spanY_size]
    exact hview.bottom

theorem isLeast_shift {α : Type} {f g : α → ℤ} {l : List α} {m m' o : ℤ}
    (hfg : ∀ x ∈ l, g x = f x + o) (hm : IsLeast (values f l) m) (hm' : IsLeast (values g l) m') :
    m' = m + o := by
  obtain ⟨x, hx, hfx⟩ := hm.1
  obtain ⟨y, hy, hgy⟩ := hm'.1
  have hle := hm'.2 ⟨x, hx, rfl⟩
  have hle' := hm.2 ⟨y, hy, rfl⟩
  rw [hfg x hx] at hle
  rw [hfg y hy] at hgy
  omega

theorem sourceAt_boxOf {clips : Clips} {n inc : BitVec 32} {u : DisplayUnit} (hview : Viewport u)
    (hne : unitCalls (stduArgs clips n inc) u ≠ []) :
    SourceAt u (boxOf (unitCalls (stduArgs clips n inc) u)) := by
  have hds : ∀ d ∈ unitCalls (stduArgs clips n inc) u, Ranged d.2 := fun _ => unitCalls_ranged
  have hbound := bounding_boxOf hne hds
  unfold boxOf at *
  rw [grow_eq] at *
  constructor
  · exact isLeast_shift (fun d hd => (unitCalls_source hview hd).1) hbound.left
      (foldMin_isLeast hne fun d hd => (hds d hd).fbX)
  · exact isLeast_shift (fun d hd => (unitCalls_source hview hd).2) hbound.top
      (foldMin_isLeast hne fun d hd => (hds d hd).fbY)

theorem Bounding.flat_iff {ds : List (ℕ × Dirty)} {b c : Box} (hb : Bounding ds b)
    (hc : Bounding ds c) : Flat b ↔ Flat c := by
  unfold Flat
  rw [hb.left.unique hc.left, hb.top.unique hc.top, hb.right.unique hc.right,
    hb.bottom.unique hc.bottom]

theorem Bounding.eq {ds : List (ℕ × Dirty)} {u : DisplayUnit} {b c : Box} (hb : Bounding ds b)
    (hc : Bounding ds c) (hsb : SourceAt u b) (hsc : SourceAt u c) : b = c := by
  have hleft := hb.left.unique hc.left
  have htop := hb.top.unique hc.top
  have hright := hb.right.unique hc.right
  have hbottom := hb.bottom.unique hc.bottom
  have hx := hsb.x
  have hy := hsb.y
  rw [hleft, ← hsc.x] at hx
  rw [htop, ← hsc.y] at hy
  cases b
  cases c
  simp_all

/-- A unit whose clips have a bounding box with an area has that box copied, from where it is in
    the framebuffer. -/
def RegionOf (env : DmaEnv) (u : DisplayUnit) (ds : List (ℕ × Dirty)) : Option CpuCopy → Prop
  | none => ∀ b, Bounding ds b → Flat b
  | some c => Bounding ds c.region ∧ SourceAt u c.region ∧
      c.args = blitArgs env (env.stdu u) c.region

/-- A command has the boxes of the unit's clips; the update behind it has their bounding box. -/
def CommandOf (env : DmaEnv) (u : DisplayUnit) (ds : List (ℕ × Dirty)) : Option DmaCmd → Prop
  | none => ds = []
  | some c => ds ≠ [] ∧ c.boxes = ds.map (fun d => copyBox d.2) ∧
      if env.toSurface then
        ∃ b, Bounding ds b ∧ c.update = some (populateUpdate u.unit b.left b.right b.top b.bottom)
      else c.update = none

def transferUnits (env : DmaEnv) (us : List DisplayUnit) : List DisplayUnit :=
  match env.prepare with
  | .error _ => []
  | .ok () => if env.cpuBlit then us else reached env.fifo 0 us

/-- What the transfer does for each unit is given by the clips that hit that unit. -/
structure RegionsOwn (env : DmaEnv) (crtcs : List DisplayUnit) (vfb : ℕ) (clips : Clips)
    (numClips increment : BitVec 32) (crtc : Option DisplayUnit) : Prop where
  copies : List.Forall₂
    (fun u p => p.1 = u ∧ RegionOf env u (unitCalls (stduArgs clips numClips increment) u) p.2)
    (if env.cpuBlit then transferUnits env (dirtyUnits crtcs vfb crtc) else [])
    (vmwKmsStduDma env crtcs vfb clips numClips increment crtc).2.copies
  cmds : List.Forall₂
    (fun u p => p.1 = u ∧ CommandOf env u (unitCalls (stduArgs clips numClips increment) u) p.2)
    (if env.cpuBlit then [] else transferUnits env (dirtyUnits crtcs vfb crtc))
    (vmwKmsStduDma env crtcs vfb clips numClips increment crtc).2.cmds

/-- What is left of units whose own box has no area, in `carry`, does not matter: it is inside the
    box of the next unit that is hit and has an area, and gives no area to the ones before that. -/
def Undisturbed (carry : Box) : List (List (ℕ × Dirty)) → Prop
  | [] => True
  | ds :: rest =>
    if ds = [] then Undisturbed carry rest
    else if Flat (boxOf ds) then Flat (grow carry ds) ∧ Undisturbed (grow carry ds) rest
    else grow carry ds = boxOf ds ∧ Undisturbed emptyBox rest

/-- What the CPU path does for the units, from an accumulator and a number of units before. -/
def cpuTrace (env : DmaEnv) (a : DirtyArgs) (b : Box) (k : ℕ) :
    List DisplayUnit → List (DisplayUnit × Option CpuCopy)
  | [] => []
  | u :: us =>
    if unitCalls a u = [] then (u, none) :: cpuTrace env a b (k + 1) us
    else
      let c := grow b (unitCalls a u)
      if Flat c then (u, none) :: cpuTrace env a c (k + 1) us
      else
        (u, some ⟨c, blitArgs env (env.stdu u) c, blitUpdate env u (env.blitEnd k)⟩) ::
          cpuTrace env a emptyBox (k + 1) us

theorem cpuOps_foldl (env : DmaEnv) (u : DisplayUnit) (s : CpuState) (ds : List (ℕ × Dirty)) :
    ds.foldl (fun s d => (cpuOps env).clip s u d.1 d.2) s =
      { s with box := grow s.box ds, numHits := if ds = [] then s.numHits else 1 } := by
  induction ds generalizing s with
  | nil => rfl
  | cons d ds ih =>
    rw [List.foldl_cons, ih]
    simp [cpuOps, grow]

theorem unitLoop_cpuOps (env : DmaEnv) (a : DirtyArgs) (us : List DisplayUnit) (s : CpuState) :
    (unitLoop (cpuOps env) a us s).2.copies =
      s.copies ++ cpuTrace env a s.box s.copies.length us := by
  induction us generalizing s with
  | nil => exact (List.append_nil s.copies).symm
  | cons u us ih =>
    have hres : (cpuOps env).reserve s u = some { s with numHits := 0 } := rfl
    rw [unitLoop, hres]
    simp only [clipLoop_eq_foldl, cpuOps_foldl]
    rw [ih, cpuTrace]
    by_cases hne : unitCalls a u = []
    · simp [cpuOps, cpuCommit, hne, grow]
    · by_cases hflat : Flat (grow s.box (unitCalls a u))
      · simp [cpuOps, cpuCommit, hne, hflat]
      · simp [cpuOps, cpuCommit, hne, hflat]

/-- One unit: what its commit does is its own region if and only if the carried coordinates
    change neither whether there is an area nor the area. -/
theorem regionOf_none_iff {env : DmaEnv} {u : DisplayUnit} {ds : List (ℕ × Dirty)} (hne : ds ≠ [])
    (hds : ∀ d ∈ ds, Ranged d.2) : RegionOf env u ds none ↔ Flat (boxOf ds) := by
  have hbound := bounding_boxOf hne hds
  constructor
  · intro h
    exact h (boxOf ds) hbound
  · intro hflat b hb
    exact (hb.flat_iff hbound).mpr hflat

theorem regionOf_some_iff {env : DmaEnv} {u : DisplayUnit} {ds : List (ℕ × Dirty)} {b : Box}
    {up : Option (ℕ × SvgaRect)} (hne : ds ≠ []) (hds : ∀ d ∈ ds, Ranged d.2)
    (hsrc : SourceAt u (boxOf ds)) :
    RegionOf env u ds (some ⟨b, blitArgs env (env.stdu u) b, up⟩) ↔ b = boxOf ds := by
  have hbound := bounding_boxOf hne hds
  constructor
  · rintro ⟨hb, hsb, _⟩
    exact hb.eq hbound hsb hsrc
  · rintro rfl
    exact ⟨hbound, hsrc, rfl⟩

theorem cpuTrace_own_iff (env : DmaEnv) (clips : Clips) (n inc : BitVec 32) (b : Box) (k : ℕ)
    {us : List DisplayUnit} (hview : ∀ u ∈ us, Viewport u) :
    List.Forall₂ (fun u p => p.1 = u ∧ RegionOf env u (unitCalls (stduArgs clips n inc) u) p.2) us
        (cpuTrace env (stduArgs clips n inc) b k us) ↔
      Undisturbed b (us.map (unitCalls (stduArgs clips n inc))) := by
  induction us generalizing b k with
  | nil => simp [cpuTrace, Undisturbed]
  | cons u us ih =>
    have ih := fun b => ih b (k + 1) fun v hv => hview v (List.mem_cons_of_mem u hv)
    have hu := hview u List.mem_cons_self
    rw [List.map_cons, cpuTrace, Undisturbed]
    by_cases hne : unitCalls (stduArgs clips n inc) u = []
    · have hnone : RegionOf env u (unitCalls (stduArgs clips n inc) u) none := by
        intro c hc
        obtain ⟨d, hd, _⟩ := hc.left.1
        rw [hne] at hd
        cases hd
      rw [if_pos hne, if_pos hne, List.forall₂_cons, ih]
      exact and_iff_right ⟨rfl, hnone⟩
    · have hds : ∀ d ∈ unitCalls (stduArgs clips n inc) u, Ranged d.2 := fun _ => unitCalls_ranged
      have hsrc := sourceAt_boxOf hu hne
      rw [if_neg hne, if_neg hne]
      by_cases hflat : Flat (grow b (unitCalls (stduArgs clips n inc) u))
      · rw [if_pos hflat, List.forall₂_cons, regionOf_none_iff hne hds, ih]
        by_cases hown : Flat (boxOf (unitCalls (stduArgs clips n inc) u))
        · simp [hown, hflat]
        · rw [if_neg hown]
          constructor
          · rintro ⟨⟨_, h⟩, _⟩
            exact absurd h hown
          · rintro ⟨h, _⟩
            exact absurd (h ▸ hflat) hown
      · rw [if_neg hflat, List.forall₂_cons, regionOf_some_iff hne hds hsrc, ih]
        by_cases hown : Flat (boxOf (unitCalls (stduArgs clips n inc) u))
        · rw [if_pos hown]
          constructor
          · rintro ⟨⟨_, h⟩, _⟩
            exact absurd (h ▸ hown) hflat
          · rintro ⟨h, _⟩
            exact absurd h hflat
        · simp [hown]

def dmaCmd (env : DmaEnv) (u : DisplayUnit) (ds : List (ℕ × Dirty)) : Option DmaCmd :=
  if ds = [] then none
  else
    some
      { headerSize := 28 + (36 * ds.length + 12)
        guest := env.buf
        pitch := env.pitch
        sid := (env.stdu u).sid
        write := env.toSurface
        boxes := ds.map fun d => copyBox d.2
        maximumOffset := env.numPages * 4096
        update :=
          if env.toSurface then
            some (populateUpdate u.unit (boxOf ds).left (boxOf ds).right (boxOf ds).top
              (boxOf ds).bottom)
          else none }

def growDest (b : Box) (ds : List (ℕ × Dirty)) : Box := ds.foldl (fun b d => growDma b d.2) b

theorem growDest_eq (b : Box) (ds : List (ℕ × Dirty)) :
    growDest b ds = { grow b ds with fbLeft := b.fbLeft, fbTop := b.fbTop } := by
  suffices h : ∀ c : Box,
      growDest { c with fbLeft := b.fbLeft, fbTop := b.fbTop } ds =
        { grow c ds with fbLeft := b.fbLeft, fbTop := b.fbTop } from h b
  induction ds with
  | nil => exact fun c => rfl
  | cons d ds ih => exact fun c => ih (growCpu c d.2)

theorem dmaOps_foldl (env : DmaEnv) (u : DisplayUnit) (s : DmaState) (ds : List (ℕ × Dirty)) :
    ds.foldl (fun s d => (dmaOps env).clip s u d.1 d.2) s =
      { s with
        boxes := s.boxes ++ ds.map fun d => copyBox d.2
        box := if env.toSurface then growDest s.box ds else s.box } := by
  induction ds generalizing s with
  | nil => simp [growDest]
  | cons d ds ih =>
    rw [List.foldl_cons, ih]
    cases hto : env.toSurface <;> simp [dmaOps, dmaClip, growDest, hto]

theorem dmaCommit_own (env : DmaEnv) (u : DisplayUnit) (s : DmaState) (ds : List (ℕ × Dirty))
    (hbox : s.box = emptyBox) :
    dmaCommit env { s with
        boxes := ds.map fun d => copyBox d.2
        box := if env.toSurface then growDest s.box ds else s.box } u =
      ⟨emptyBox, ds.map fun d => copyBox d.2, s.cmds ++ [(u, dmaCmd env u ds)]⟩ := by
  unfold dmaCommit dmaCmd
  rw [hbox, growDest_eq]
  by_cases hne : ds = []
  · subst hne
    cases env.toSurface <;> rfl
  · have hlen : ds.length ≠ 0 := fun h => hne (List.length_eq_zero_iff.mp h)
    cases hto : env.toSurface <;> simp [hne, boxOf, emptyBox]

theorem dmaOps_unitwise (env : DmaEnv) (a : DirtyArgs) :
    UnitwiseOps (dmaOps env) a env.fifo DmaState.cmds (fun u => dmaCmd env u (unitCalls a u))
      fun s => s.box = emptyBox := by
  apply UnitwiseOps.of_commit fun s => { s with boxes := [] }
  · exact fun _ _ => rfl
  · intro s u t hs ht
    rw [dmaOps_foldl] at ht
    obtain rfl := ht.trans (dmaCommit_own env u s (unitCalls a u) hs)
    exact ⟨rfl, rfl⟩

theorem commandOf_dmaCmd (env : DmaEnv) (a : DirtyArgs) (u : DisplayUnit) :
    CommandOf env u (unitCalls a u) (dmaCmd env u (unitCalls a u)) := by
  unfold dmaCmd
  by_cases hne : unitCalls a u = []
  · rw [if_pos hne]
    exact hne
  · rw [if_neg hne]
    refine ⟨hne, rfl, ?_⟩
    split
    · exact ⟨boxOf (unitCalls a u), bounding_boxOf hne fun _ => unitCalls_ranged, rfl⟩
    · rfl

/-- The regions and the update boxes are those of the units' own clips, always on the DMA path,
    and on the CPU path if and only if no unit that has been left without a blit disturbs the
    later ones. -/
theorem regionsOwn_iff (env : DmaEnv) (crtcs : List DisplayUnit) (vfb : ℕ) (clips : Clips)
    (numClips increment : BitVec 32) (crtc : Option DisplayUnit)
    (hview : ∀ u ∈ dirtyUnits crtcs vfb crtc, Viewport u) :
    RegionsOwn env crtcs vfb clips numClips increment crtc ↔
      (env.cpuBlit = true → Undisturbed emptyBox
        ((transferUnits env (dirtyUnits crtcs vfb crtc)).map
          (unitCalls (stduArgs clips numClips increment)))) := by
  cases hprep : env.prepare with
  | error e =>
    have hunits : transferUnits env (dirtyUnits crtcs vfb crtc) = [] := by
      simp only [transferUnits, hprep]
    have hlog : (vmwKmsStduDma env crtcs vfb clips numClips increment crtc).2 = ⟨[], []⟩ := by
      simp only [vmwKmsStduDma, hprep]
    rw [hunits]
    refine ⟨fun _ _ => trivial, fun _ => ⟨?_, ?_⟩⟩
    all_goals
      rw [hunits, hlog, ite_self]
      exact List.Forall₂.nil
  | ok _ =>
    cases hcpu : env.cpuBlit with
    | true =>
      have hunits : transferUnits env (dirtyUnits crtcs vfb crtc) = dirtyUnits crtcs vfb crtc := by
        simp only [transferUnits, hprep, hcpu, if_true]
      have hlog : (vmwKmsStduDma env crtcs vfb clips numClips increment crtc).2 =
          ⟨cpuTrace env (stduArgs clips numClips increment) emptyBox 0
            (dirtyUnits crtcs vfb crtc), []⟩ := by
        simp [vmwKmsStduDma, hprep, hcpu, vmwKmsHelperDirty, unitLoop_cpuOps]
      have hown := cpuTrace_own_iff env clips numClips increment emptyBox 0 hview
      rw [hunits, ← hown]
      constructor
      · intro h _
        have hcopies := h.copies
        rw [if_pos hcpu, hunits, hlog] at hcopies
        exact hcopies
      · intro h
        constructor
        · rw [if_pos hcpu, hunits, hlog]
          exact h rfl
        · rw [if_pos hcpu, hlog]
          exact List.Forall₂.nil
    | false =>
      have hunits : transferUnits env (dirtyUnits crtcs vfb crtc) =
          reached env.fifo 0 (dirtyUnits crtcs vfb crtc) := by
        simp only [transferUnits, hprep, hcpu, Bool.false_eq_true, if_false]
      have hlog : (vmwKmsStduDma env crtcs vfb clips numClips increment crtc).2 =
          ⟨[], (reached env.fifo 0 (dirtyUnits crtcs vfb crtc)).map fun u =>
            (u, dmaCmd env u (unitCalls (stduArgs clips numClips increment) u))⟩ := by
        have hrun := (dmaOps_unitwise env (stduArgs clips numClips increment)).unitLoop
          (dirtyUnits crtcs vfb crtc) ⟨emptyBox, [], []⟩ rfl
        simp only [vmwKmsStduDma, hprep, hcpu, vmwKmsHelperDirty, Bool.false_eq_true, if_false]
        rw [hrun]
        rfl
      refine ⟨fun _ h => absurd h Bool.false_ne_true, fun _ => ⟨?_, ?_⟩⟩
      · rw [hcpu, hlog]
        exact List.Forall₂.nil
      · rw [hcpu, hunits, hlog]
        simp only [Bool.false_eq_true, if_false, List.forall₂_map_right_iff, List.forall₂_same,
          true_and]
        exact fun u _ => commandOf_dmaCmd env _ u

def leftUnit : DisplayUnit := ⟨0, some 1, 0, 0, 640, 480⟩

def rightUnit : DisplayUnit := ⟨1, some 1, 640, 0, 640, 480⟩

def uploadEnv : DmaEnv where
  buf := 7
  numPages := 600
  pitch := 5120
  toSurface := true
  cpuBlit := true
  prepare := .ok ()
  stdu u := ⟨u.unit, 10 + u.unit, 640, 4⟩
  fifo _ := true
  blitEnd _ := ⟨0, 0, 8, 8, true, true⟩

theorem sample_viewport : ∀ u ∈ dirtyUnits [leftUnit, rightUnit] 1 none, Viewport u := by
  have hunits : dirtyUnits [leftUnit, rightUnit] 1 none = [leftUnit, rightUnit] := by decide
  rw [hunits]
  intro u hu
  rcases List.mem_pair.mp hu with rfl | rfl <;> constructor <;> decide

theorem straddling_clip_own :
    RegionsOwn uploadEnv [leftUnit, rightUnit] 1 (.clips fun _ => ⟨600, 0, 700, 50⟩) 1 1 none :=
  (regionsOwn_iff uploadEnv [leftUnit, rightUnit] 1 (.clips fun _ => ⟨600, 0, 700, 50⟩) 1 1 none
    sample_viewport).mpr fun _ => by
      have hcalls : (transferUnits uploadEnv (dirtyUnits [leftUnit, rightUnit] 1 none)).map
          (unitCalls (stduArgs (.clips fun _ => ⟨600, 0, 700, 50⟩) 1 1)) =
            [[(0, ⟨600, 0, 600, 0, 640, 50⟩)], [(0, ⟨640, 0, 0, 0, 60, 50⟩)]] := by
        decide +kernel
      rw [hcalls]
      simp only [Undisturbed]
      decide

/-- A clip without a width on the left screen, then one on the right screen. -/
def strayClips : Clips :=
  .clips fun i => if i = 0 then ⟨100, 0, 100, 100⟩ else ⟨700, 0, 740, 50⟩

theorem stray_clip_disturbs :
    ¬ RegionsOwn uploadEnv [leftUnit, rightUnit] 1 strayClips 2 1 none := by
  intro h
  have hcopies := h.copies
  have hcalls : unitCalls (stduArgs strayClips 2 1) rightUnit = [(1, ⟨700, 0, 60, 0, 100, 50⟩)] := by
    decide +kernel
  have hunits : (if uploadEnv.cpuBlit then
      transferUnits uploadEnv (dirtyUnits [leftUnit, rightUnit] 1 none) else []) =
        [leftUnit, rightUnit] := by decide
  have hlog : (vmwKmsStduDma uploadEnv [leftUnit, rightUnit] 1 strayClips 2 1 none).2.copies =
      [(leftUnit, none), (rightUnit, some ⟨⟨60, 0, 100, 100, 100, 0⟩,
        ⟨11, 240, 2560, 7, 400, 5120, 160, 100⟩, some (1, ⟨0, 0, 8, 8⟩)⟩)] := by
    decide +kernel
  rw [hunits, hlog, List.forall₂_cons, List.forall₂_cons] at hcopies
  obtain ⟨d, hd, hbottom⟩ := hcopies.2.1.2.1.bottom.1
  rw [hcalls, List.mem_singleton] at hd
  subst hd
  exact absurd hbottom (by decide)

end Vmwgfx.StduDma

import Vmwgfx.SurfaceSizes

set_option autoImplicit false

/-!
# Creation of framebuffers

`vmw_kms_fb_create` with its three constructors: a framebuffer over a surface, over a buffer, and
over a proxy surface that wraps a buffer. Each function passes on what is held, so that every
exit shows which references it leaves.
-/
namespace Vmwgfx.Framebuffers
open ExecbufState (Errno)
open SurfaceDefs
open SurfaceDefine (CreateExtReq DefineEnds pageSize)
open SurfaceSizes (imageBytes blocks unitBytes)

inductive DisplayUnit where
  | invalid
  | legacy
  | screenObject
  | screenTarget
  deriving DecidableEq, Repr

/-- What is read of `struct vmw_private`; `cap3d` is the bit `SVGA_CAP_3D`. -/
structure VmwPrivate where
  activeDisplayUnit : DisplayUnit
  cap3d : Bool
  hasDx : Bool
  textureMaxWidth : UInt32
  textureMaxHeight : UInt32
  stduMaxWidth : UInt32
  stduMaxHeight : UInt32

/-- `struct drm_mode_fb_cmd2`, its first plane. -/
structure ModeCmd where
  width : UInt32
  height : UInt32
  pixelFormat : UInt32
  handle : UInt32
  pitch : UInt32
  offset : UInt32

/-- What is read of `struct vmw_surface`; `backup` are the pages of its backup buffer. -/
structure Surface where
  format : UInt32
  scanout : Bool
  mipLevels : UInt32
  numSizes : UInt32
  baseSize : DrmVmwSize
  backup : Option UInt64

/-- What `vmw_user_lookup_handle` finds. -/
inductive Found where
  | surface (s : Surface)
  | buffer (numPages : UInt64)

structure Framebuffer where
  width : UInt32
  height : UInt32
  pixelFormat : UInt32
  pitch : UInt32
  offset : UInt32
  userHandle : UInt32
  isBoProxy : Bool
  backing : Found

/-- The references that are held and the framebuffers that are allocated. -/
@[ext]
structure Refs where
  userObj : ℤ
  surface : ℤ
  bo : ℤ
  proxy : ℤ
  frames : ℤ
  deriving DecidableEq

structure CreateEnds where
  define : DefineEnds
  kzalloc : Bool
  framebufferInit : Option Errno

/-- The end of `vmw_kms_fb_create`. `nullDeref` is `vfb->user_obj` of a framebuffer that was not
    created. -/
inductive Outcome where
  | error (e : Errno)
  | framebuffer (fb : Framebuffer)
  | nullDeref

def enoent : Errno := .other 2
def enosys : Errno := .other 38

def drmFormatArgb8888 : UInt32 := 0x34325241
def drmFormatXrgb8888 : UInt32 := 0x34325258
def drmFormatRgb565 : UInt32 := 0x36314752
def drmFormatXrgb1555 : UInt32 := 0x35315258

def noRefs : Refs := ⟨0, 0, 0, 0, 0⟩

/-- What is held after `ttm_base_object_lookup`. -/
def userObjRefs : Refs := ⟨1, 0, 0, 0, 0⟩

def userObjUnref (r : Refs) : Refs := { r with userObj := r.userObj - 1 }
def boReference (r : Refs) : Refs := { r with bo := r.bo + 1 }
def boUnreference (r : Refs) : Refs := { r with bo := r.bo - 1 }

/-- A proxy holds a reference to its buffer for as long as it exists. -/
def surfaceReference (isBoProxy : Bool) (r : Refs) : Refs :=
  if isBoProxy then { r with proxy := r.proxy + 1 } else { r with surface := r.surface + 1 }

def surfaceUnreference (isBoProxy : Bool) (r : Refs) : Refs :=
  if isBoProxy then
    let r := { r with proxy := r.proxy - 1 }
    if r.proxy = 0 then boUnreference r else r
  else { r with surface := r.surface - 1 }

def allocFrame (r : Refs) : Refs := { r with frames := r.frames + 1 }
def kfreeFrame (r : Refs) : Refs := { r with frames := r.frames - 1 }

def vmwKmsSrfOk (dev : VmwPrivate) (width height : UInt32) : Bool :=
  !(dev.textureMaxWidth < width || dev.textureMaxHeight < height)

/-- `drm_helper_mode_fill_fb_struct` and what else the constructors store. -/
def fillFbStruct (cmd : ModeCmd) (isBoProxy : Bool) (backing : Found) : Framebuffer :=
  ⟨cmd.width, cmd.height, cmd.pixelFormat, cmd.pitch, cmd.offset, cmd.handle, isBoProxy, backing⟩

def scanoutFormat (pixelFormat : UInt32) : Option SurfaceFormat :=
  if pixelFormat = drmFormatArgb8888 then some .a8r8g8b8
  else if pixelFormat = drmFormatXrgb8888 then some .x8r8g8b8
  else if pixelFormat = drmFormatRgb565 then some .r5g6b5
  else if pixelFormat = drmFormatXrgb1555 then some .a1r5g5b5
  else none

/-- The checks of `vmw_kms_new_framebuffer_surface`. -/
def surfaceChecks (dev : VmwPrivate) (s : Surface) (cmd : ModeCmd) : Option Errno :=
  if dev.activeDisplayUnit = .legacy then some enosys
  else if !s.scanout then some .einval
  else if s.mipLevels ≠ 1 ∨ s.numSizes ≠ 1 ∨ s.baseSize.width < cmd.width ∨
      s.baseSize.height < cmd.height ∨ s.baseSize.depth ≠ 1 then some .einval
  else
    match scanoutFormat cmd.pixelFormat with
    | none => some .einval
    | some format => if !dev.hasDx && format.value != s.format then some .einval else none

def vmwKmsNewFramebufferSurface (dev : VmwPrivate) (ends : CreateEnds) (s : Surface)
    (cmd : ModeCmd) (isBoProxy : Bool) (r : Refs) : Except Errno Framebuffer × Refs :=
  match surfaceChecks dev s cmd with
  | some e => (.error e, r)
  | none =>
    if ends.kzalloc then
      let r := surfaceReference isBoProxy (allocFrame r)
      match ends.framebufferInit with
      | some e => (.error e, kfreeFrame (surfaceUnreference isBoProxy r))
      | none => (.ok (fillFbStruct cmd isBoProxy (.surface s)), r)
    else (.error .enomem, r)

/-- `requested_size` is an `unsigned int`, the size of the buffer an `unsigned long`. -/
def boChecks (dev : VmwPrivate) (numPages : UInt64) (cmd : ModeCmd) : Option Errno :=
  if numPages * pageSize < (cmd.height * cmd.pitch).toUInt64 then some .einval
  else if dev.activeDisplayUnit = .screenObject ∧ (scanoutFormat cmd.pixelFormat).isNone then
    some .einval
  else none

def vmwKmsNewFramebufferBo (dev : VmwPrivate) (ends : CreateEnds) (numPages : UInt64)
    (cmd : ModeCmd) (r : Refs) : Except Errno Framebuffer × Refs :=
  match boChecks dev numPages cmd with
  | some e => (.error e, r)
  | none =>
    if ends.kzalloc then
      let r := boReference (allocFrame r)
      match ends.framebufferInit with
      | some e => (.error e, kfreeFrame (boUnreference r))
      | none => (.ok (fillFbStruct cmd false (.buffer numPages)), r)
    else (.error .enomem, r)

/-- The format of a proxy with its bytes for each pixel. -/
def proxyFormat (pixelFormat : UInt32) : Option (SurfaceFormat × UInt32) :=
  if pixelFormat = drmFormatArgb8888 ∨ pixelFormat = drmFormatXrgb8888 then some (.x8r8g8b8, 4)
  else if pixelFormat = drmFormatRgb565 ∨ pixelFormat = drmFormatXrgb1555 then some (.r5g6b5, 2)
  else if pixelFormat = 8 then some (.p8, 1)
  else none

/-- The device as `vmw_surface_gb_priv_define` reads it; no SM4.1 feature is asked for. -/
def VmwPrivate.gb (dev : VmwPrivate) : SurfaceDefine.VmwPrivate :=
  ⟨dev.hasDx, false, dev.textureMaxWidth, dev.textureMaxHeight,
    dev.activeDisplayUnit == .screenTarget, dev.stduMaxWidth, dev.stduMaxHeight⟩

/-- The arguments of `vmw_surface_gb_priv_define`, as a request. -/
def proxyRequest (format : SurfaceFormat) (size : DrmVmwSize) : CreateExtReq :=
  { svga3dFlags := 0
    format := format.value
    mipLevels := 1
    drmSurfaceFlags := 0
    multisampleCount := 0
    bufferHandle := 0
    arraySize := 0
    baseSize := size
    svga3dFlagsUpper32Bits := 0
    multisamplePattern := 0
    qualityLevel := 0 }

def proxySize (cmd : ModeCmd) (bytesPp : UInt32) : DrmVmwSize :=
  ⟨cmd.pitch / bytesPp, cmd.height, 1⟩

/-- `vmw_create_bo_proxy`. The backup buffer is switched without a look at its size. -/
def vmwCreateBoProxy (dev : VmwPrivate) (ends : CreateEnds) (cmd : ModeCmd) (numPages : UInt64)
    (r : Refs) : Except Errno Surface × Refs :=
  match proxyFormat cmd.pixelFormat with
  | none => (.error .einval, r)
  | some (format, bytesPp) =>
    match SurfaceDefine.vmwSurfaceGbPrivDefine ends.define dev.gb 0 true
        (proxyRequest format (proxySize cmd bytesPp)) with
    | .error e => (.error e, r)
    | .ok srf =>
      (.ok ⟨srf.format, srf.scanout, srf.mipLevels, 1, srf.baseSize, some numPages⟩,
        boReference (surfaceReference true r))

/-- When `vmw_kms_new_framebuffer` wraps a buffer. -/
def wantsProxy (dev : VmwPrivate) (only2d : Bool) (cmd : ModeCmd) : Bool :=
  vmwKmsSrfOk dev cmd.width cmd.height && only2d && 64 < cmd.width &&
    dev.activeDisplayUnit == .screenTarget

def vmwKmsNewFramebuffer (dev : VmwPrivate) (ends : CreateEnds) (found : Found) (only2d : Bool)
    (cmd : ModeCmd) (r : Refs) : Except Errno Framebuffer × Refs :=
  match found with
  | .surface s => vmwKmsNewFramebufferSurface dev ends s cmd false r
  | .buffer numPages =>
    if wantsProxy dev only2d cmd then
      match vmwCreateBoProxy dev ends cmd numPages r with
      | (.error e, r) => (.error e, r)
      | (.ok srf, r) =>
        let (ret, r) := vmwKmsNewFramebufferSurface dev ends srf cmd true r
        (ret, surfaceUnreference true r)
    else vmwKmsNewFramebufferBo dev ends numPages cmd r

/-- The references of `vmw_user_lookup_handle`. -/
def lookupReference (found : Found) (r : Refs) : Refs :=
  match found with
  | .surface _ => surfaceReference false r
  | .buffer _ => boReference r

def lookupUnreference (found : Found) (r : Refs) : Refs :=
  match found with
  | .surface _ => surfaceUnreference false r
  | .buffer _ => boUnreference r

/-- The label `err_out`, at which every path ends that has a user object. -/
def errOut (found : Option Found) (ret : Option Errno) (vfb : Option Framebuffer) (r : Refs) :
    Outcome × Refs :=
  let r := found.elim r (lookupUnreference · r)
  match ret with
  | some e => (.error e, userObjUnref r)
  | none =>
    match vfb with
    | none => (.nullDeref, r)
    | some fb => (.framebuffer fb, r)

/-- `lookup` is what the handle leads to: no base object, or one whose lookup may fail. -/
def vmwKmsFbCreate (dev : VmwPrivate) (lookup : Option (Except Errno Found)) (ends : CreateEnds)
    (cmd : ModeCmd) : Outcome × Refs :=
  match lookup with
  | none => (.error enoent, noRefs)
  | some (.error e) => errOut none (some e) none userObjRefs
  | some (.ok found) =>
    let r := lookupReference found userObjRefs
    let refused := match found with
      | .surface _ => !vmwKmsSrfOk dev cmd.width cmd.height
      | .buffer _ => false
    -- `ret` is still zero here.
    if refused then errOut (some found) none none r
    else
      match vmwKmsNewFramebuffer dev ends found (!dev.cap3d) cmd r with
      | (.error e, r) => errOut (some found) (some e) none r
      | (.ok vfb, r) => errOut (some found) none (some vfb) r

/-- What `framebuffer_check` of the DRM core has established. -/
structure CoreChecked (cmd : ModeCmd) (cpp : ℕ) : Prop where
  area : cmd.height.toNat * cmd.pitch.toNat + cmd.offset.toNat < 2 ^ 32
  pitch : cmd.width.toNat * cpp ≤ cmd.pitch.toNat

def bufferBytes (numPages : UInt64) : ℕ := numPages.toNat * 4096

def Framebuffer.area (fb : Framebuffer) : ℕ := fb.height.toNat * fb.pitch.toNat

/-- The rows are inside the backing object, and inside the buffer that a proxy wraps. -/
def Framebuffer.Inside (fb : Framebuffer) : Prop :=
  match fb.backing with
  | .buffer numPages => fb.area ≤ bufferBytes numPages
  | .surface s => fb.area ≤ imageBytes (getDesc s.format) s.baseSize ∧
      (fb.isBoProxy → ∃ numPages, s.backup = some numPages ∧ fb.area ≤ bufferBytes numPages)

def Framebuffer.kept (fb : Framebuffer) : Refs :=
  match fb.backing, fb.isBoProxy with
  | .buffer _, _ => ⟨1, 0, 1, 0, 1⟩
  | .surface _, false => ⟨1, 1, 0, 0, 1⟩
  | .surface _, true => ⟨1, 0, 1, 1, 1⟩

/-- `vmw_framebuffer_surface_destroy` and `vmw_framebuffer_bo_destroy`. -/
def vmwFramebufferDestroy (fb : Framebuffer) (r : Refs) : Refs :=
  kfreeFrame (userObjUnref (match fb.backing with
    | .surface _ => surfaceUnreference fb.isBoProxy r
    | .buffer _ => boUnreference r))

/-- An error leaves nothing held. A framebuffer is the one that was requested, with its rows
    inside the backing object and what it keeps held once. -/
def Handled (cmd : ModeCmd) (end_ : Outcome × Refs) : Prop :=
  match end_.1 with
  | .error _ => end_.2 = noRefs
  | .framebuffer fb => (∃ proxy backing, fb = fillFbStruct cmd proxy backing) ∧ fb.Inside ∧
      end_.2 = fb.kept
  | .nullDeref => False

/-- The bytes of a pixel in the formats whose proxies have the format that the surface
    constructor asks for. -/
def proxyBytes (dev : VmwPrivate) (pixelFormat : UInt32) : Option UInt32 :=
  if pixelFormat = drmFormatXrgb8888 ∨ pixelFormat = drmFormatArgb8888 ∧ dev.hasDx then some 4
  else if pixelFormat = drmFormatRgb565 ∨ pixelFormat = drmFormatXrgb1555 ∧ dev.hasDx then some 2
  else none

/-- A proxy is made for the request and nothing in the request is refused. -/
structure ProxyMade (dev : VmwPrivate) (cmd : ModeCmd) (bytesPp : UInt32) : Prop where
  wanted : wantsProxy dev (!dev.cap3d) cmd = true
  format : proxyBytes dev cmd.pixelFormat = some bytesPp
  covers : cmd.width ≤ cmd.pitch / bytesPp
  texture : cmd.pitch / bytesPp ≤ dev.textureMaxWidth

/-- A surface is asked for within the limits of textures and has the bytes of the rows. A wrapped
    buffer has them too, and whole pixels make up its rows. -/
def CreateOk (dev : VmwPrivate) (cmd : ModeCmd) (found : Found) : Prop :=
  match found with
  | .surface s => vmwKmsSrfOk dev cmd.width cmd.height = true ∧
      (surfaceChecks dev s cmd = none →
        cmd.height.toNat * cmd.pitch.toNat ≤ imageBytes (getDesc s.format) s.baseSize)
  | .buffer numPages => ∀ bytesPp, ProxyMade dev cmd bytesPp →
      (bytesPp.toNat ∣ cmd.pitch.toNat ∨ cmd.height = 0) ∧
        cmd.height.toNat * cmd.pitch.toNat ≤ bufferBytes numPages

section Ledger
variable (found : Found) (r : Refs) (fb : Framebuffer)

@[simp] theorem boUnreference_reference : boUnreference (boReference r) = r := by
  simp [boUnreference, boReference]

theorem surfaceUnreference_reference (isBoProxy : Bool) (h : isBoProxy = true → r.proxy ≠ 0) :
    surfaceUnreference isBoProxy (surfaceReference isBoProxy r) = r := by
  cases isBoProxy with
  | false => simp [surfaceUnreference, surfaceReference]
  | true =>
    have hr : r.proxy ≠ 0 := h rfl
    simp [surfaceUnreference, surfaceReference, hr]

@[simp] theorem lookupUnreference_reference :
    lookupUnreference found (lookupReference found r) = r := by
  cases found with
  | surface s => exact surfaceUnreference_reference r false (fun h => by cases h)
  | buffer numPages => exact boUnreference_reference r

theorem kfreeFrame_alloc : kfreeFrame (allocFrame r) = r := by
  simp [kfreeFrame, allocFrame]

theorem drop_proxy (h : r.proxy = 0) :
    surfaceUnreference true (boReference (surfaceReference true r)) = r := by
  ext <;> simp [surfaceUnreference, surfaceReference, boReference, boUnreference, h]

theorem destroy_kept : vmwFramebufferDestroy fb fb.kept = noRefs := by
  unfold vmwFramebufferDestroy Framebuffer.kept
  cases fb.backing with
  | buffer numPages => rfl
  | surface s => cases fb.isBoProxy <;> rfl

end Ledger

section Constructors
variable {dev : VmwPrivate} {ends : CreateEnds} {s : Surface} {cmd : ModeCmd} {r : Refs}
  {numPages : UInt64}

def quietEnds : CreateEnds := ⟨⟨none, none, none, none, none, .ok 0, none, none⟩, true, none⟩

variable (dev ends s cmd) in
theorem newFramebufferSurface_cases (isBoProxy : Bool) (h : isBoProxy = true → r.proxy ≠ 0) :
    (∃ e, vmwKmsNewFramebufferSurface dev ends s cmd isBoProxy r = (.error e, r)) ∨
    (surfaceChecks dev s cmd = none ∧
      vmwKmsNewFramebufferSurface dev ends s cmd isBoProxy r =
        (.ok (fillFbStruct cmd isBoProxy (.surface s)),
          surfaceReference isBoProxy (allocFrame r))) := by
  unfold vmwKmsNewFramebufferSurface
  cases hc : surfaceChecks dev s cmd with
  | some e => exact .inl ⟨e, rfl⟩
  | none =>
    cases hk : ends.kzalloc with
    | false => exact .inl ⟨.enomem, rfl⟩
    | true =>
      cases hi : ends.framebufferInit with
      | none => exact .inr ⟨rfl, rfl⟩
      | some e =>
        have hb := surfaceUnreference_reference (allocFrame r) isBoProxy h
        exact .inl ⟨e, by simp [hb, kfreeFrame_alloc]⟩

theorem newFramebufferSurface_quiet (isBoProxy : Bool) (h : surfaceChecks dev s cmd = none) :
    vmwKmsNewFramebufferSurface dev quietEnds s cmd isBoProxy r =
      (.ok (fillFbStruct cmd isBoProxy (.surface s)),
        surfaceReference isBoProxy (allocFrame r)) := by
  simp [vmwKmsNewFramebufferSurface, h, quietEnds]

variable (dev ends cmd r numPages) in
/-- A buffer constructor that fails changes nothing, one that succeeds has seen that the rows
    fit. -/
theorem newFramebufferBo_cases :
    (∃ e, vmwKmsNewFramebufferBo dev ends numPages cmd r = (.error e, r)) ∨
    (boChecks dev numPages cmd = none ∧
      vmwKmsNewFramebufferBo dev ends numPages cmd r =
        (.ok (fillFbStruct cmd false (.buffer numPages)), boReference (allocFrame r))) := by
  unfold vmwKmsNewFramebufferBo
  cases hc : boChecks dev numPages cmd with
  | some e => exact .inl ⟨e, rfl⟩
  | none =>
    cases hk : ends.kzalloc with
    | false => exact .inl ⟨.enomem, rfl⟩
    | true =>
      cases hi : ends.framebufferInit with
      | none => exact .inr ⟨rfl, rfl⟩
      | some e => exact .inl ⟨e, by simp [kfreeFrame_alloc]⟩

theorem boChecks_area {cpp : ℕ} (hc : CoreChecked cmd cpp) (h : boChecks dev numPages cmd = none) :
    cmd.height.toNat * cmd.pitch.toNat ≤ bufferBytes numPages := by
  have hs : ¬numPages * pageSize < (cmd.height * cmd.pitch).toUInt64 := by
    intro hlt
    rw [boChecks, if_pos hlt] at h
    cases h
  have hle : (cmd.height * cmd.pitch).toNat ≤ (numPages * pageSize).toNat := by
    simpa [UInt64.lt_iff_toNat_lt] using hs
  have hw := hc.area
  have hm : (cmd.height * cmd.pitch).toNat = cmd.height.toNat * cmd.pitch.toNat := by
    rw [UInt32.toNat_mul]
    exact Nat.mod_eq_of_lt (by omega)
  calc cmd.height.toNat * cmd.pitch.toNat
      = (cmd.height * cmd.pitch).toNat := hm.symm
    _ ≤ (numPages * pageSize).toNat := hle
    _ ≤ numPages.toNat * 4096 := by
      rw [UInt64.toNat_mul]
      exact Nat.mod_le _ _

def proxySurface (cmd : ModeCmd) (format : SurfaceFormat) (bytesPp : UInt32)
    (numPages : UInt64) : Surface :=
  ⟨format.value, true, 1, 1, proxySize cmd bytesPp, some numPages⟩

theorem proxyFormat_target {pixelFormat : UInt32} {format : SurfaceFormat} {bytesPp : UInt32}
    (h : proxyFormat pixelFormat = some (format, bytesPp)) :
    isScreenTargetFormat format.value = true := by
  unfold proxyFormat at h
  split_ifs at h <;> cases h <;> decide

theorem proxyDefine_cases (o : DefineEnds) (gb : SurfaceDefine.VmwPrivate)
    (format : SurfaceFormat) (size : DrmVmwSize) :
    (∃ e, SurfaceDefine.vmwSurfaceGbPrivDefine o gb 0 true (proxyRequest format size) =
      .error e) ∨
    (size.width ≤ gb.textureMaxWidth ∧ ∃ flags backupSize,
      SurfaceDefine.vmwSurfaceGbPrivDefine o gb 0 true (proxyRequest format size) =
        .ok ⟨flags, format.value, true, 1, size, 0, 0, 0, 0, backupSize⟩) := by
  unfold SurfaceDefine.vmwSurfaceGbPrivDefine
  dsimp only
  split
  · exact .inl ⟨_, rfl⟩
  split
  · exact .inl ⟨_, rfl⟩
  next hsize =>
    have hw : size.width ≤ gb.textureMaxWidth := by
      simp only [Bool.true_and, Bool.or_eq_true, decide_eq_true_eq, not_or] at hsize
      exact UInt32.not_lt.1 hsize.1
    split
    · exact .inl ⟨_, rfl⟩
    split
    · exact .inl ⟨_, rfl⟩
    split
    · exact .inl ⟨_, rfl⟩
    · exact .inl ⟨_, rfl⟩
    · exact .inl ⟨_, rfl⟩
    · split
      · exact .inl ⟨_, rfl⟩
      · exact .inr ⟨hw, _, _, rfl⟩

theorem proxyDefine_quiet (gb : SurfaceDefine.VmwPrivate) {format : SurfaceFormat}
    (size : DrmVmwSize) (hf : isScreenTargetFormat format.value = true)
    (hw : size.width ≤ gb.textureMaxWidth) (hh : size.height ≤ gb.textureMaxHeight) :
    ∃ flags backupSize, SurfaceDefine.vmwSurfaceGbPrivDefine quietEnds.define gb 0 true
        (proxyRequest format size) =
      .ok ⟨flags, format.value, true, 1, size, 0, 0, 0, 0, backupSize⟩ := by
  have hw' : ¬gb.textureMaxWidth < size.width := UInt32.not_lt.2 hw
  have hh' : ¬gb.textureMaxHeight < size.height := UInt32.not_lt.2 hh
  simp only [SurfaceDefine.vmwSurfaceGbPrivDefine, proxyRequest, quietEnds, hf, hw', hh',
    decide_false, Bool.not_true, Bool.and_false, Bool.or_self, Bool.false_and, Bool.false_eq_true,
    if_false]
  exact ⟨_, _, rfl⟩

variable (dev ends cmd r numPages) in
theorem createBoProxy_cases :
    (∃ e, vmwCreateBoProxy dev ends cmd numPages r = (.error e, r)) ∨
    (∃ format bytesPp, proxyFormat cmd.pixelFormat = some (format, bytesPp) ∧
      cmd.pitch / bytesPp ≤ dev.textureMaxWidth ∧
      vmwCreateBoProxy dev ends cmd numPages r =
        (.ok (proxySurface cmd format bytesPp numPages),
          boReference (surfaceReference true r))) := by
  unfold vmwCreateBoProxy
  cases hp : proxyFormat cmd.pixelFormat with
  | none => exact .inl ⟨_, rfl⟩
  | some formats =>
    obtain ⟨format, bytesPp⟩ := formats
    obtain ⟨e, he⟩ | ⟨hw, flags, backupSize, hd⟩ :=
      proxyDefine_cases ends.define dev.gb format (proxySize cmd bytesPp)
    · exact .inl ⟨e, by simp only [he]⟩
    · exact .inr ⟨format, bytesPp, rfl, hw, by simp only [hd, proxySurface]⟩

theorem createBoProxy_quiet {format : SurfaceFormat} {bytesPp : UInt32}
    (hp : proxyFormat cmd.pixelFormat = some (format, bytesPp))
    (hw : cmd.pitch / bytesPp ≤ dev.textureMaxWidth) (hh : cmd.height ≤ dev.textureMaxHeight) :
    vmwCreateBoProxy dev quietEnds cmd numPages r =
      (.ok (proxySurface cmd format bytesPp numPages), boReference (surfaceReference true r)) := by
  obtain ⟨flags, backupSize, hd⟩ := proxyDefine_quiet dev.gb (proxySize cmd bytesPp)
    (proxyFormat_target hp) hw hh
  simp only [vmwCreateBoProxy, hp, hd, proxySurface]

theorem proxyFormat_of_bytes {bytesPp : UInt32}
    (h : proxyBytes dev cmd.pixelFormat = some bytesPp) :
    ∃ format, proxyFormat cmd.pixelFormat = some (format, bytesPp) := by
  unfold proxyBytes at h
  split_ifs at h with h4 h2
  · cases h
    have hp : cmd.pixelFormat = drmFormatArgb8888 ∨ cmd.pixelFormat = drmFormatXrgb8888 :=
      h4.elim .inr fun hx => .inl hx.1
    exact ⟨.x8r8g8b8, by rw [proxyFormat, if_pos hp]⟩
  · cases h
    have hp : cmd.pixelFormat = drmFormatRgb565 ∨ cmd.pixelFormat = drmFormatXrgb1555 :=
      h2.elim .inl fun hx => .inr hx.1
    refine ⟨.r5g6b5, ?_⟩
    obtain hp | hp := hp <;> rw [hp] <;> decide

theorem formatCheck_proxy {format : SurfaceFormat} {bytesPp : UInt32}
    (hp : proxyFormat cmd.pixelFormat = some (format, bytesPp)) :
    ((scanoutFormat cmd.pixelFormat).any fun f => dev.hasDx || f.value == format.value) ↔
      proxyBytes dev cmd.pixelFormat = some bytesPp := by
  unfold proxyBytes
  generalize dev.hasDx = hasDx
  generalize cmd.pixelFormat = pixelFormat at hp ⊢
  unfold proxyFormat at hp
  split_ifs at hp with h4 h2 h1
  · cases hp
    obtain rfl | rfl := h4 <;> revert hasDx <;> decide
  · cases hp
    obtain rfl | rfl := h2 <;> revert hasDx <;> decide
  · cases hp
    subst h1
    revert hasDx
    decide

theorem surfaceChecks_proxy {format : SurfaceFormat} {bytesPp : UInt32}
    (hp : proxyFormat cmd.pixelFormat = some (format, bytesPp))
    (hu : dev.activeDisplayUnit = .screenTarget) :
    surfaceChecks dev (proxySurface cmd format bytesPp numPages) cmd = none ↔
      proxyBytes dev cmd.pixelFormat = some bytesPp ∧ cmd.width ≤ cmd.pitch / bytesPp := by
  rw [← formatCheck_proxy hp]
  have hlegacy : dev.activeDisplayUnit ≠ .legacy := by
    rw [hu]
    decide
  unfold surfaceChecks
  simp only [hlegacy, proxySurface, proxySize, if_false, Bool.not_true, Bool.false_eq_true,
    ne_eq, not_true_eq_false, false_or, or_false]
  by_cases hw : cmd.pitch / bytesPp < cmd.width
  · simp [hw]
  · cases hf : scanoutFormat cmd.pixelFormat with
    | none => simp [hw]
    | some f =>
      cases hx : dev.hasDx <;> simp [hw, UInt32.not_lt.1 hw]

theorem imageBytes_pixels (format : SurfaceFormat) (blockDesc : BlockDesc) (bytesPp : UInt32)
    (h : isPlanarSurface ⟨format, blockDesc, ⟨1, 1, 1⟩, bytesPp, bytesPp⟩ = false) :
    imageBytes ⟨format, blockDesc, ⟨1, 1, 1⟩, bytesPp, bytesPp⟩ (proxySize cmd bytesPp) =
      cmd.pitch.toNat / bytesPp.toNat * cmd.height.toNat * bytesPp.toNat := by
  simp [imageBytes, blocks, unitBytes, h, proxySize]

theorem imageBytes_proxy {format : SurfaceFormat} {bytesPp : UInt32}
    (hp : proxyFormat cmd.pixelFormat = some (format, bytesPp)) :
    imageBytes (getDesc format.value) (proxySize cmd bytesPp) =
      cmd.pitch.toNat / bytesPp.toNat * cmd.height.toNat * bytesPp.toNat := by
  unfold proxyFormat at hp
  split_ifs at hp <;> cases hp
  · exact imageBytes_pixels .x8r8g8b8 .rgbUnorm 4 rfl
  · exact imageBytes_pixels .r5g6b5 .rgbUnorm 2 rfl
  · exact imageBytes_pixels .p8 .none 1 rfl

theorem rows_le_iff (pitch height bytesPp : ℕ) :
    height * pitch ≤ pitch / bytesPp * height * bytesPp ↔ bytesPp ∣ pitch ∨ height = 0 := by
  have hmul : pitch / bytesPp * height * bytesPp = height * (bytesPp * (pitch / bytesPp)) := by
    ring
  have hsplit : height * pitch =
      height * (bytesPp * (pitch / bytesPp)) + height * (pitch % bytesPp) := by
    rw [← Nat.mul_add, Nat.div_add_mod]
  rw [hmul, hsplit, Nat.dvd_iff_mod_eq_zero]
  constructor
  · intro h
    have hz : height * (pitch % bytesPp) = 0 := by omega
    exact (Nat.mul_eq_zero.1 hz).symm
  · rintro (h | h)
    · simp [h]
    · simp [h]

theorem handled_error (found : Found) (e : Errno) :
    Handled cmd (errOut (some found) (some e) none (lookupReference found userObjRefs)) := by
  simp [Handled, errOut, userObjUnref, userObjRefs, noRefs]

theorem fbCreate_wide (ends : CreateEnds) (s : Surface)
    (hs : vmwKmsSrfOk dev cmd.width cmd.height = false) :
    (vmwKmsFbCreate dev (some (.ok (.surface s))) ends cmd).1 = .nullDeref := by
  simp [vmwKmsFbCreate, hs, errOut]

theorem handled_surface_iff (s : Surface) :
    (∀ ends, Handled cmd (vmwKmsFbCreate dev (some (.ok (.surface s))) ends cmd)) ↔
      CreateOk dev cmd (.surface s) := by
  cases hs : vmwKmsSrfOk dev cmd.width cmd.height with
  | false =>
    constructor
    · intro h
      have hnull := h quietEnds
      rw [Handled, fbCreate_wide quietEnds s hs] at hnull
      exact hnull.elim
    · intro h
      exact absurd h.1 (by simp [hs])
  | true =>
    constructor
    · intro h
      refine ⟨hs, fun hchecks => ?_⟩
      have hquiet := h quietEnds
      simp only [vmwKmsFbCreate, hs, Bool.not_true, Bool.false_eq_true, if_false,
        vmwKmsNewFramebuffer, newFramebufferSurface_quiet false hchecks] at hquiet
      exact hquiet.2.1.1
    · intro h ends
      have hp : false = true → (lookupReference (.surface s) userObjRefs).proxy ≠ 0 :=
        fun hf => by cases hf
      simp only [vmwKmsFbCreate, hs, Bool.not_true, Bool.false_eq_true, if_false,
        vmwKmsNewFramebuffer]
      obtain ⟨e, he⟩ | ⟨hchecks, he⟩ := newFramebufferSurface_cases dev ends s cmd false hp
      · rw [he]
        exact handled_error (.surface s) e
      · rw [he]
        exact ⟨⟨_, _, rfl⟩, ⟨h.2 hchecks, fun hf => by cases hf⟩, rfl⟩

theorem handled_plain {cpp : ℕ} (hc : CoreChecked cmd cpp)
    (hw : wantsProxy dev (!dev.cap3d) cmd = false) (ends : CreateEnds) :
    Handled cmd (vmwKmsFbCreate dev (some (.ok (.buffer numPages))) ends cmd) := by
  simp only [vmwKmsFbCreate, vmwKmsNewFramebuffer, hw, Bool.false_eq_true, if_false]
  obtain ⟨e, he⟩ | ⟨hchecks, he⟩ := newFramebufferBo_cases dev ends cmd
    (lookupReference (.buffer numPages) userObjRefs) numPages
  · rw [he]
    exact handled_error (.buffer numPages) e
  · rw [he]
    exact ⟨⟨_, _, rfl⟩, boChecks_area hc hchecks, rfl⟩

/-- What is held while the surface constructor looks at a proxy. -/
def proxyRefs (numPages : UInt64) : Refs :=
  boReference (surfaceReference true (lookupReference (.buffer numPages) userObjRefs))

theorem handled_proxy_iff (hw : wantsProxy dev (!dev.cap3d) cmd = true) :
    (∀ ends, Handled cmd (vmwKmsFbCreate dev (some (.ok (.buffer numPages))) ends cmd)) ↔
      CreateOk dev cmd (.buffer numPages) := by
  have hwant := hw
  simp only [wantsProxy, vmwKmsSrfOk, Bool.and_eq_true, Bool.not_eq_true', Bool.or_eq_false_iff,
    decide_eq_false_iff_not, UInt32.not_lt, decide_eq_true_eq, beq_iff_eq] at hwant
  obtain ⟨⟨⟨⟨hwidth, hheight⟩, -⟩, -⟩, hunit⟩ := hwant
  constructor
  · intro h bytesPp hm
    obtain ⟨format, hp⟩ := proxyFormat_of_bytes hm.format
    have hchecks : surfaceChecks dev (proxySurface cmd format bytesPp numPages) cmd = none :=
      (surfaceChecks_proxy hp hunit).2 ⟨hm.format, hm.covers⟩
    have hquiet := h quietEnds
    simp only [vmwKmsFbCreate, vmwKmsNewFramebuffer, hw, if_true, Bool.false_eq_true, if_false,
      createBoProxy_quiet hp hm.texture hheight,
      newFramebufferSurface_quiet true hchecks] at hquiet
    obtain ⟨himage, hbuffer⟩ := hquiet.2.1
    obtain ⟨pages, hpages, hfits⟩ := hbuffer rfl
    have hrows : cmd.height.toNat * cmd.pitch.toNat ≤
        cmd.pitch.toNat / bytesPp.toNat * cmd.height.toNat * bytesPp.toNat :=
      imageBytes_proxy hp ▸ himage
    refine ⟨?_, ?_⟩
    · simpa [← UInt32.toNat_inj] using (rows_le_iff _ _ _).1 hrows
    · obtain rfl := Option.some.inj hpages
      exact hfits
  · intro h ends
    simp only [vmwKmsFbCreate, vmwKmsNewFramebuffer, hw, if_true, Bool.false_eq_true, if_false]
    obtain ⟨e, he⟩ | ⟨format, bytesPp, hp, htexture, he⟩ := createBoProxy_cases dev ends cmd
      (lookupReference (.buffer numPages) userObjRefs) numPages
    · rw [he]
      exact handled_error (.buffer numPages) e
    rw [he]
    have hdrop := drop_proxy (lookupReference (.buffer numPages) userObjRefs) rfl
    obtain ⟨e, he'⟩ | ⟨hchecks, he'⟩ := newFramebufferSurface_cases dev ends
      (proxySurface cmd format bytesPp numPages) cmd (r := proxyRefs numPages) true
      (fun _ => Int.one_ne_zero)
    · rw [proxyRefs] at he'
      simp only [he', hdrop]
      exact handled_error (.buffer numPages) e
    · rw [proxyRefs] at he'
      simp only [he']
      have hformat := (surfaceChecks_proxy hp hunit).1 hchecks
      obtain ⟨hwhole, hfits⟩ := h bytesPp ⟨hw, hformat.1, hformat.2, htexture⟩
      refine ⟨⟨_, _, rfl⟩, ⟨?_, fun _ => ⟨numPages, rfl, hfits⟩⟩, rfl⟩
      have hrows := (rows_le_iff cmd.pitch.toNat cmd.height.toNat bytesPp.toNat).2
        (by simpa [← UInt32.toNat_inj] using hwhole)
      exact (imageBytes_proxy hp).symm ▸ hrows

end Constructors

/-- Whatever fails inside, the request ends in an error that holds nothing or in a framebuffer
    whose rows are inside what backs it, exactly if `CreateOk` holds of what the handle leads
    to. -/
theorem fbCreate_handled_iff (dev : VmwPrivate) (lookup : Option (Except Errno Found))
    (cmd : ModeCmd) (cpp : ℕ) (hc : CoreChecked cmd cpp) :
    (∀ ends, Handled cmd (vmwKmsFbCreate dev lookup ends cmd)) ↔
      ∀ found, lookup = some (.ok found) → CreateOk dev cmd found := by
  cases lookup with
  | none => simp [vmwKmsFbCreate, Handled]
  | some lookup =>
    cases lookup with
    | error e => simp [vmwKmsFbCreate, Handled, errOut, userObjUnref, userObjRefs, noRefs]
    | ok found =>
      have hfound : (∀ f, some (Except.ok found : Except Errno Found) = some (.ok f) →
          CreateOk dev cmd f) ↔ CreateOk dev cmd found := by simp
      rw [hfound]
      cases found with
      | surface s => exact handled_surface_iff s
      | buffer numPages =>
        cases hw : wantsProxy dev (!dev.cap3d) cmd with
        | true => exact handled_proxy_iff hw
        | false =>
          have hok : CreateOk dev cmd (.buffer numPages) := fun bytesPp hm => by
            have hwanted := hm.wanted
            rw [hw] at hwanted
            cases hwanted
          simp [hok, handled_plain hc hw]

def sampleDevice : VmwPrivate := ⟨.screenTarget, false, false, 8192, 8192, 8192, 8192⟩

def sampleCmd : ModeCmd := ⟨1024, 768, drmFormatXrgb8888, 7, 4096, 0⟩

theorem sample_checked : CoreChecked sampleCmd 4 where
  area := by decide
  pitch := by decide

theorem sample_handled :
    Handled sampleCmd
        (vmwKmsFbCreate sampleDevice (some (.ok (.buffer 768))) quietEnds sampleCmd) ∧
      Handled sampleCmd (vmwKmsFbCreate sampleDevice (some (.ok (.buffer 768)))
        { quietEnds with framebufferInit := some .enomem } sampleCmd) := by
  have h := (fbCreate_handled_iff sampleDevice (some (.ok (.buffer 768))) sampleCmd 4
    sample_checked).2 fun found hfound => by
      obtain rfl := Except.ok.inj (Option.some.inj hfound)
      intro bytesPp hmade
      have hbytes : proxyBytes sampleDevice sampleCmd.pixelFormat = some 4 := by decide
      obtain rfl := Option.some.inj (hbytes.symm.trans hmade.format)
      decide
  exact ⟨h quietEnds, h { quietEnds with framebufferInit := some .enomem }⟩

/-- A buffer of one page is wrapped for a framebuffer of 768 pages. -/
theorem short_buffer_wrapped : CoreChecked sampleCmd 4 ∧
    ¬∀ ends, Handled sampleCmd (vmwKmsFbCreate sampleDevice (some (.ok (.buffer 1))) ends
      sampleCmd) := by
  refine ⟨sample_checked, ?_⟩
  rw [handled_proxy_iff (by decide)]
  intro h
  have hmade : ProxyMade sampleDevice sampleCmd 4 :=
    ⟨by decide, by decide, by decide, by decide⟩
  exact absurd (h 4 hmade).2 (by decide)

end Vmwgfx.Framebuffers

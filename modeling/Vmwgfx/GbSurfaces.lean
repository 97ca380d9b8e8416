import Vmwgfx.SurfaceDefine
import Mathlib.Algebra.Group.Pi.Lemmas

set_option autoImplicit false

/-!
# What guest-backed surfaces hold

`vmw_gb_surface_define_internal` and `vmw_gb_surface_reference_internal` with all that they take
and give back: the lock, the accounted memory, the surface with the reference to the master, the
references to buffers and to base objects, and the handles of the calling file.
-/
namespace Vmwgfx.GbSurfaces
open ExecbufState (Errno)
open SurfaceDefs
open SurfaceDefine (VmwPrivate CreateExtReq Surface DefineEnds requestOk svga3dFlags64 hasFlag
  numLayers sampleCount svga3dInvalidId drmVmwSurfaceFlagScanout drmVmwSurfaceFlagCreateBuffer
  svga3dSurfaceBindStreamOutput svga3dSurfaceScreentarget soStateSize pageSize)

/-- What is held. Objects have numbers, a buffer the one of its base object; `handles` are the
    usage references of the calling file by handle, with their counts. -/
structure Held where
  readLocks : ℤ
  memGlob : ℤ
  surfaces : ℤ
  masterRefs : ℤ
  /-- References to the `struct ttm_object_file` of the caller. -/
  fileRefs : ℤ
  boRefs : ℕ → ℤ
  baseRefs : ℕ → ℤ
  handles : ℕ → ℕ

/-- `struct vmw_user_surface` while it is defined; `refs` are the references to its resource. -/
structure UserSurface where
  size : ℤ
  master : Bool
  backup : Option ℕ
  backupBase : Option ℕ
  refs : ℕ

/-- What the calls of a definition return and the objects that they find and make. `backup` of
    `ends` is the number of pages of `buffer`, `boAlloc` fails before the new buffer exists and
    `boHandle` when it is to get a handle. -/
structure GbEnds where
  ends : DefineEnds
  boHandle : Option Errno
  buffer : ℕ
  newBuffer : ℕ
  newBufferHandle : UInt32
  newSurface : ℕ
  newSurfaceHandle : UInt32
  userSurfaceSize : ℤ
  refObjectSize : ℤ
  boAccSize : ℤ
  /-- `drm_vma_node_offset_addr` of a buffer. -/
  mapHandle : ℕ → UInt64

structure CreateRep where
  handle : UInt32
  backupSize : UInt32
  bufferHandle : UInt32
  bufferSize : UInt32
  bufferMapHandle : UInt64
  deriving DecidableEq, Repr

def ttmReadLock (s : Held) : Held := { s with readLocks := s.readLocks + 1 }
def ttmReadUnlock (s : Held) : Held := { s with readLocks := s.readLocks - 1 }

def ttmMemGlobalAlloc (size : ℤ) (s : Held) : Held := { s with memGlob := s.memGlob + size }
def ttmMemGlobalFree (size : ℤ) (s : Held) : Held := { s with memGlob := s.memGlob - size }

def ttmBoReference (b : ℕ) (s : Held) : Held := { s with boRefs := s.boRefs + Pi.single b 1 }
def vmwBoUnreference (b : ℕ) (s : Held) : Held := { s with boRefs := s.boRefs - Pi.single b 1 }

def ttmBaseObjectRef (b : ℕ) (s : Held) : Held := { s with baseRefs := s.baseRefs + Pi.single b 1 }
def ttmBaseObjectUnref (b : ℕ) (s : Held) : Held :=
  { s with baseRefs := s.baseRefs - Pi.single b 1 }

def vmwUserSurfaceFree (u : UserSurface) (s : Held) : Held :=
  ttmMemGlobalFree u.size
    { s with
      masterRefs := if u.master then s.masterRefs - 1 else s.masterRefs
      surfaces := s.surfaces - 1 }

/-- `vmw_resource_release`, of a surface that the device does not know. -/
def vmwResourceRelease (u : UserSurface) (s : Held) : Held :=
  vmwUserSurfaceFree u (match u.backup with
    | none => s
    | some b => vmwBoUnreference b s)

def vmwResourceUnreference (u : UserSurface) (s : Held) : UserSurface × Held :=
  let v := { u with refs := u.refs - 1 }
  (v, if v.refs = 0 then vmwResourceRelease u s else s)

/-- `ttm_base_object_init`, through `ttm_prime_object_init`; when it fails the object keeps the
    reference to the file. -/
def ttmBaseObjectInit (o : GbEnds) (ret : Option Errno) (base handle : ℕ) (s : Held) :
    Option Errno × Held :=
  let t := { s with fileRefs := s.fileRefs + 1 }
  match ret with
  | some e => (some e, t)
  | none => (none, ttmBaseObjectRef base (ttmMemGlobalAlloc o.refObjectSize
      { t with handles := Function.update t.handles handle (t.handles handle + 1) }))

/-- `vmw_user_bo_alloc`. `vmw_bo_init` makes the first reference to the buffer. -/
def vmwUserBoAlloc (o : GbEnds) (s : Held) : Option Errno × Held :=
  match o.ends.boAlloc with
  | some e => (some e, s)
  | none =>
    let t := ttmBoReference o.newBuffer (ttmMemGlobalAlloc o.boAccSize s)
    let t := ttmBoReference o.newBuffer t
    match ttmBaseObjectInit o o.boHandle o.newBuffer o.newBufferHandle.toNat t with
    | (some e, t) => (some e, vmwBoUnreference o.newBuffer t)
    | (none, t) => (none, ttmBaseObjectRef o.newBuffer t)

/-- `vmw_user_bo_lookup` with `p_base`; the result is the number of pages. -/
def vmwUserBoLookup (o : GbEnds) (s : Held) : Except Errno UInt64 × Held :=
  match o.ends.backup with
  | .error e => (.error e, s)
  | .ok pages => (.ok pages, ttmBoReference o.buffer (ttmBaseObjectRef o.buffer s))

/-- The surface that `vmw_surface_gb_priv_define` sets up. -/
def gbSurface (dev : VmwPrivate) (flags : UInt64) (forScanout : Bool) (req : CreateExtReq) :
    Surface :=
  let size := req.baseSize
  let target := dev.screenTarget && forScanout && size.width ≤ dev.stduMaxWidth &&
    size.height ≤ dev.stduMaxHeight
  { flags := if target then flags ||| svga3dSurfaceScreentarget else flags
    format := req.format
    scanout := forScanout
    mipLevels := req.mipLevels
    baseSize := size
    arraySize := req.arraySize
    multisampleCount := req.multisampleCount
    multisamplePattern := req.multisamplePattern
    qualityLevel := req.qualityLevel
    backupSize := (getSerializedSizeExtended req.format size req.mipLevels
        (numLayers flags req.arraySize) (sampleCount flags req.multisampleCount)).toUInt64 +
      if hasFlag flags svga3dSurfaceBindStreamOutput then soStateSize else 0 }

def vmwSurfaceGbPrivDefine (o : GbEnds) (dev : VmwPrivate) (flags : UInt64) (forScanout : Bool)
    (req : CreateExtReq) (s : Held) : Except Errno (Surface × UserSurface) × Held :=
  let size := req.baseSize
  if forScanout && !isScreenTargetFormat req.format then (.error .einval, s)
  else if forScanout && (dev.textureMaxWidth < size.width || dev.textureMaxHeight < size.height) then
    (.error .einval, s)
  else if !forScanout && (getDesc req.format).blockDesc == .none then (.error .einval, s)
  else if 0 < req.arraySize && !dev.hasDx then (.error .einval, s)
  else
    match o.ends.readLock with
    | some e => (.error e, s)
    | none =>
      let s := ttmReadLock s
      match o.ends.memGlobalAlloc with
      | some e => (.error e, ttmReadUnlock s)
      | none =>
        let s := ttmMemGlobalAlloc o.userSurfaceSize s
        match o.ends.kzalloc with
        | some e => (.error e, ttmReadUnlock (ttmMemGlobalFree o.userSurfaceSize s))
        | none =>
          let s := { s with surfaces := s.surfaces + 1 }
          let u : UserSurface := ⟨o.userSurfaceSize, false, none, none, 1⟩
          match o.ends.surfaceInit with
          | some e => (.error e, ttmReadUnlock (vmwUserSurfaceFree u s))
          | none => (.ok (gbSurface dev flags forScanout req, u), ttmReadUnlock s)

/-- The end of `vmw_gb_surface_define_internal`, from `vmw_resource_reference` on. `backup` has
    the handle, the size and the offset of the backup buffer. -/
def handleSurface (o : GbEnds) (srf : Surface) (u : UserSurface)
    (backup : Option (UInt32 × UInt32 × UInt64)) (s : Held) : Except Errno CreateRep × Held :=
  let u := { u with refs := u.refs + 1 }
  match ttmBaseObjectInit o o.ends.primeObjectInit o.newSurface o.newSurfaceHandle.toNat s with
  | (some e, s) =>
    let (u, s) := vmwResourceUnreference u s
    let (_, s) := vmwResourceUnreference u s
    (.error e, ttmReadUnlock s)
  | (none, s) =>
    let (bufferHandle, bufferSize, bufferMapHandle) := backup.getD (svga3dInvalidId, 0, 0)
    let (_, s) := vmwResourceUnreference u s
    (.ok ⟨o.newSurfaceHandle, srf.backupSize.toUInt32, bufferHandle, bufferSize,
      bufferMapHandle⟩, ttmReadUnlock s)

/-- The error path on which the surface has its only reference. -/
def dropSurface (u : UserSurface) (e : Errno) (s : Held) : Except Errno CreateRep × Held :=
  (.error e, ttmReadUnlock (vmwResourceUnreference u s).2)

/-- The part of `vmw_gb_surface_define_internal` under the second lock. -/
def backSurface (o : GbEnds) (req : CreateExtReq) (srf : Surface) (u : UserSurface) (s : Held) :
    Except Errno CreateRep × Held :=
  if req.bufferHandle ≠ svga3dInvalidId then
    match vmwUserBoLookup o s with
    | (.error e, s) => dropSurface u e s
    | (.ok pages, s) =>
      if pages * pageSize < srf.backupSize then
        -- `goto out_unlock` with the surface still there
        (.error .einval, ttmReadUnlock (vmwBoUnreference o.buffer s))
      else
        handleSurface o srf { u with backup := some o.buffer, backupBase := some o.buffer }
          (some (req.bufferHandle, (pages * pageSize).toUInt32, o.mapHandle o.buffer)) s
  else if req.drmSurfaceFlags &&& drmVmwSurfaceFlagCreateBuffer ≠ 0 then
    match vmwUserBoAlloc o s with
    | (some e, s) => dropSurface u e s
    | (none, s) =>
      let pages := (srf.backupSize.toUInt32.toUInt64 + pageSize - 1) / pageSize
      handleSurface o srf { u with backup := some o.newBuffer, backupBase := some o.newBuffer }
        (some (o.newBufferHandle, (pages * pageSize).toUInt32, o.mapHandle o.newBuffer)) s
  else handleSurface o srf u none s

/-- `vmw_gb_surface_define_internal`; `primary` is `drm_is_primary_client`. -/
def vmwGbSurfaceDefineInternal (o : GbEnds) (dev : VmwPrivate) (primary : Bool)
    (req : CreateExtReq) (s : Held) : Except Errno CreateRep × Held :=
  let flags := svga3dFlags64 req.svga3dFlagsUpper32Bits req.svga3dFlags
  if !requestOk dev flags req then (.error .einval, s)
  else
    let forScanout := req.drmSurfaceFlags &&& drmVmwSurfaceFlagScanout != 0
    match vmwSurfaceGbPrivDefine o dev flags forScanout req s with
    | (.error e, s) => (.error e, s)
    | (.ok (srf, u), s) =>
      let u := { u with master := primary }
      let s := if primary then { s with masterRefs := s.masterRefs + 1 } else s
      match o.ends.readLockAgain with
      | some e => (.error e, s)
      | none => backSurface o req srf u (ttmReadLock s)

/-- A buffer that backs a surface; `userBo` tells that it is one of a user. -/
structure Backup where
  object : ℕ
  handle : UInt32
  userBo : Bool
  /-- The base object is shareable or of the calling file. -/
  mayRef : Bool
  numPages : UInt64
  mapHandle : UInt64
  deriving DecidableEq, Repr

structure GbSurface where
  srf : Surface
  autogenFilter : UInt32
  backup : Option Backup
  deriving DecidableEq, Repr

/-- A base object; it is a surface when it has the type `VMW_RES_SURFACE`. -/
structure BaseObject where
  object : ℕ
  handle : UInt32
  mayRef : Bool
  /-- `user_srf->master == file_priv->master`. -/
  sameMaster : Bool
  surface : Option GbSurface
  deriving DecidableEq, Repr

/-- The objects that the caller can name, who the caller is and what the allocations of the two
    reference objects return. -/
structure RefEnds where
  /-- The object of a file descriptor, as `ttm_prime_fd_to_handle` finds it. -/
  primeFd : UInt32 → Except Errno BaseObject
  /-- `ttm_base_object_lookup_for_ref`. -/
  lookup : UInt32 → Option BaseObject
  lookup_handle : ∀ h base, lookup h = some base → base.handle = h
  primaryClient : Bool
  renderClient : Bool
  lockedMaster : Bool
  surfaceRef : Option Errno
  bufferRef : Option Errno
  refObjectSize : ℤ

/-- `struct drm_vmw_surface_arg`; the handle is that of a file descriptor or else an own one. -/
structure SurfaceArg where
  sid : UInt32
  prime : Bool
  deriving DecidableEq, Repr

structure RefExtRep where
  svga3dFlags : UInt32
  format : UInt32
  mipLevels : UInt32
  drmSurfaceFlags : UInt32
  multisampleCount : UInt32
  autogenFilter : UInt32
  creqBufferHandle : UInt32
  arraySize : UInt32
  baseSize : DrmVmwSize
  version : UInt32
  svga3dFlagsUpper32Bits : UInt32
  multisamplePattern : UInt32
  qualityLevel : UInt32
  mustBeZero : UInt64
  crep : CreateRep
  deriving DecidableEq, Repr

def eacces : Errno := .other 13

def ttmRefObjectAdd (w : RefEnds) (mem : Option Errno) (object : ℕ) (handle : UInt32)
    (mayRef requireExisted : Bool) (s : Held) : Option Errno × Held :=
  if !mayRef then (some .eperm, s)
  else if 0 < s.handles handle.toNat then
    (none, { s with
      handles := Function.update s.handles handle.toNat (s.handles handle.toNat + 1) })
  else if requireExisted then (some .eperm, s)
  else
    match mem with
    | some e => (some e, s)
    | none => (none, ttmBaseObjectRef object (ttmMemGlobalAlloc w.refObjectSize
        { s with handles := Function.update s.handles handle.toNat 1 }))

def ttmRefObjectBaseUnref (w : RefEnds) (object : ℕ) (handle : UInt32) (s : Held) : Held :=
  let t := { s with
    handles := Function.update s.handles handle.toNat (s.handles handle.toNat - 1) }
  if s.handles handle.toNat = 0 then s
  else if s.handles handle.toNat = 1 then
    ttmBaseObjectUnref object (ttmMemGlobalFree w.refObjectSize t)
  else t

def vmwSurfaceHandleReference (w : RefEnds) (arg : SurfaceArg) (s : Held) :
    Except Errno (BaseObject × GbSurface) × Held :=
  if arg.prime then
    match w.primeFd arg.sid with
    | .error e => (.error e, s)
    | .ok p =>
      match ttmRefObjectAdd w w.surfaceRef p.object p.handle p.mayRef false s with
      | (some e, s) => (.error e, s)
      | (none, s) =>
        match w.lookup p.handle with
        | none => (.error .einval, ttmRefObjectBaseUnref w p.object p.handle s)
        | some base =>
          let s := ttmBaseObjectRef base.object s
          match base.surface with
          | none => (.error .einval, ttmRefObjectBaseUnref w p.object p.handle
              (ttmBaseObjectUnref base.object s))
          | some srf => (.ok (base, srf), s)
  else if w.lockedMaster then (.error eacces, s)
  else
    match w.lookup arg.sid with
    | none => (.error .einval, s)
    | some base =>
      let s := ttmBaseObjectRef base.object s
      match base.surface with
      | none => (.error .einval, ttmBaseObjectUnref base.object s)
      | some srf =>
        let requireExist := w.renderClient || (w.primaryClient && !base.sameMaster)
        match ttmRefObjectAdd w w.surfaceRef base.object base.handle base.mayRef requireExist s with
        | (some e, s) => (.error e, ttmBaseObjectUnref base.object s)
        | (none, s) => (.ok (base, srf), s)

def vmwUserBoReference (w : RefEnds) (b : Backup) (s : Held) : Option Errno × Held :=
  if !b.userBo then (some .einval, s)
  else ttmRefObjectAdd w w.bufferRef b.object b.handle b.mayRef false s

def refReply (base : BaseObject) (g : GbSurface) (b : Backup) : RefExtRep :=
  { svga3dFlags := g.srf.flags.toUInt32
    format := g.srf.format
    mipLevels := g.srf.mipLevels
    drmSurfaceFlags := 0
    multisampleCount := g.srf.multisampleCount
    autogenFilter := g.autogenFilter
    creqBufferHandle := b.handle
    arraySize := g.srf.arraySize
    baseSize := g.srf.baseSize
    version := 0
    svga3dFlagsUpper32Bits := (g.srf.flags >>> 32).toUInt32
    multisamplePattern := g.srf.multisamplePattern
    qualityLevel := g.srf.qualityLevel
    mustBeZero := 0
    crep := ⟨base.handle, g.srf.backupSize.toUInt32, b.handle,
      (b.numPages * pageSize).toUInt32, b.mapHandle⟩ }

/-- `vmw_gb_surface_reference_internal`. It returns zero with the reply that it has written, if
    it has written one. -/
def vmwGbSurfaceReferenceInternal (w : RefEnds) (arg : SurfaceArg) (s : Held) :
    Except Errno (Option RefExtRep) × Held :=
  match vmwSurfaceHandleReference w arg s with
  | (.error e, s) => (.error e, s)
  | (.ok (base, g), s) =>
    match g.backup with
    | none => (.ok none, ttmBaseObjectUnref base.object s)
    | some b =>
      match vmwUserBoReference w b s with
      | (some e, s) => (.error e, ttmBaseObjectUnref base.object
          (ttmRefObjectBaseUnref w base.object base.handle s))
      | (none, s) => (.ok (some (refReply base g b)), ttmBaseObjectUnref base.object s)

end Vmwgfx.GbSurfaces

import Vmwgfx.ExecbufState
import Vmwgfx.SurfaceDefs

set_option autoImplicit false

/-!
# Definition of guest-backed surfaces

`vmw_surface_gb_priv_define` and `vmw_gb_surface_define_internal`, up to the surface that
they define; an `unsigned long` has 64 bits.
-/
namespace Vmwgfx.SurfaceDefine
open ExecbufState (Errno)
open SurfaceDefs

/-- What the two functions read of `struct vmw_private`. -/
structure VmwPrivate where
  hasDx : Bool
  hasSm41 : Bool
  textureMaxWidth : UInt32
  textureMaxHeight : UInt32
  /-- `active_display_unit == vmw_du_screen_target`. -/
  screenTarget : Bool
  stduMaxWidth : UInt32
  stduMaxHeight : UInt32
  deriving DecidableEq, Repr

structure CreateExtReq where
  svga3dFlags : UInt32
  format : UInt32
  mipLevels : UInt32
  drmSurfaceFlags : UInt32
  multisampleCount : UInt32
  bufferHandle : UInt32
  arraySize : UInt32
  baseSize : DrmVmwSize
  svga3dFlagsUpper32Bits : UInt32
  multisamplePattern : UInt32
  qualityLevel : UInt32
  deriving DecidableEq, Repr

/-- `struct vmw_surface`; `backupSize` is that of its resource. -/
structure Surface where
  flags : UInt64
  format : UInt32
  scanout : Bool
  mipLevels : UInt32
  baseSize : DrmVmwSize
  arraySize : UInt32
  multisampleCount : UInt32
  multisamplePattern : UInt32
  qualityLevel : UInt32
  backupSize : UInt64
  deriving DecidableEq, Repr

def svga3dSurfaceCubemap : UInt64 := 1
def svga3dSurfaceScreentarget : UInt64 := 0x10000
def svga3dSurfaceBindStreamOutput : UInt64 := 0x4000000
def svga3dSurfaceMultisample : UInt64 := 0x100000000
def svga3dMaxSurfaceFaces : UInt32 := 6
def drmVmwMaxMipLevels : UInt32 := 24
def svga3dInvalidId : UInt32 := 0xffffffff
def drmVmwSurfaceFlagScanout : UInt32 := 2
def drmVmwSurfaceFlagCreateBuffer : UInt32 := 4
def pageSize : UInt64 := 4096

/-- The size of `SVGA3dDXSOState`. -/
def soStateSize : UInt64 := 16

def svga3dFlags64 (upper32 lower32 : UInt32) : UInt64 := (upper32.toUInt64 <<< 32) ||| lower32.toUInt64

def hasFlag (flags flag : UInt64) : Bool := flags &&& flag != 0

/-- `num_layers` of `vmw_surface_gb_priv_define`. -/
def numLayers (flags : UInt64) (arraySize : UInt32) : UInt32 :=
  if arraySize ≠ 0 then arraySize
  else if hasFlag flags svga3dSurfaceCubemap then svga3dMaxSurfaceFaces
  else 1

/-- `sample_count` of `vmw_surface_gb_priv_define`. -/
def sampleCount (flags : UInt64) (multisampleCount : UInt32) : UInt32 :=
  if hasFlag flags svga3dSurfaceMultisample then multisampleCount else 1

/-- What the calls return that can fail; `backup` is the number of pages of the buffer with
    the handle of the request. -/
structure DefineEnds where
  readLock : Option Errno
  memGlobalAlloc : Option Errno
  kzalloc : Option Errno
  surfaceInit : Option Errno
  readLockAgain : Option Errno
  backup : Except Errno UInt64
  boAlloc : Option Errno
  primeObjectInit : Option Errno

def vmwSurfaceGbPrivDefine (o : DefineEnds) (dev : VmwPrivate) (flags : UInt64)
    (forScanout : Bool) (req : CreateExtReq) : Except Errno Surface :=
  let size := req.baseSize
  if forScanout && !isScreenTargetFormat req.format then .error .einval
  else if forScanout && (dev.textureMaxWidth < size.width || dev.textureMaxHeight < size.height) then
    .error .einval
  else if !forScanout && (getDesc req.format).blockDesc == .none then .error .einval
  else if 0 < req.arraySize && !dev.hasDx then .error .einval
  else
    match o.readLock, o.memGlobalAlloc, o.kzalloc with
    | some e, _, _ => .error e
    | none, some e, _ => .error e
    | none, none, some e => .error e
    | none, none, none =>
      let layers := numLayers flags req.arraySize
      let samples := sampleCount flags req.multisampleCount
      let size32 := getSerializedSizeExtended req.format size req.mipLevels layers samples
      let backupSize := size32.toUInt64 +
        if hasFlag flags svga3dSurfaceBindStreamOutput then soStateSize else 0
      let target := dev.screenTarget && forScanout && size.width ≤ dev.stduMaxWidth &&
        size.height ≤ dev.stduMaxHeight
      match o.surfaceInit with
      | some e => .error e
      | none => .ok
        { flags := if target then flags ||| svga3dSurfaceScreentarget else flags
          format := req.format
          scanout := forScanout
          mipLevels := req.mipLevels
          baseSize := size
          arraySize := req.arraySize
          multisampleCount := req.multisampleCount
          multisamplePattern := req.multisamplePattern
          qualityLevel := req.qualityLevel
          backupSize := backupSize }

/-- The checks at the start of `vmw_gb_surface_define_internal`. -/
def requestOk (dev : VmwPrivate) (flags : UInt64) (req : CreateExtReq) : Bool :=
  (dev.hasSm41 || (req.svga3dFlagsUpper32Bits == 0 && req.multisampleCount == 0 &&
    req.multisamplePattern == 0 && req.qualityLevel == 0)) &&
  !(hasFlag flags svga3dSurfaceMultisample && req.multisampleCount == 0) &&
  req.mipLevels ≤ drmVmwMaxMipLevels

/-- The backup buffer of `vmw_gb_surface_define_internal`. -/
def vmwGbSurfaceBackup (o : DefineEnds) (req : CreateExtReq) (srf : Surface) : Option Errno :=
  if req.bufferHandle ≠ svga3dInvalidId then
    match o.backup with
    | .error e => some e
    | .ok pages => if pages * pageSize < srf.backupSize then some .einval else none
  else if req.drmSurfaceFlags &&& drmVmwSurfaceFlagCreateBuffer ≠ 0 then o.boAlloc
  else none

def vmwGbSurfaceDefineInternal (o : DefineEnds) (dev : VmwPrivate) (req : CreateExtReq) :
    Except Errno Surface :=
  let flags := svga3dFlags64 req.svga3dFlagsUpper32Bits req.svga3dFlags
  if !requestOk dev flags req then .error .einval
  else
    let forScanout := req.drmSurfaceFlags &&& drmVmwSurfaceFlagScanout != 0
    match vmwSurfaceGbPrivDefine o dev flags forScanout req with
    | .error e => .error e
    | .ok srf =>
      match o.readLockAgain, vmwGbSurfaceBackup o req srf, o.primeObjectInit with
      | some e, _, _ => .error e
      | none, some e, _ => .error e
      | none, none, some e => .error e
      | none, none, none => .ok srf

end Vmwgfx.SurfaceDefine

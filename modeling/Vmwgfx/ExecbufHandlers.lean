import Vmwgfx.ExecbufState

set_option autoImplicit false

/-!
# The command handlers

One definition for each `vmw_cmd_*` function that the command table names. A handler gets
the address `p` of the header; the body of the command starts at `p + 8`, and fields are
read at their offset in the packed structures of `svga3d_cmd.h` and `svga3d_dx.h`.
-/
namespace Vmwgfx.ExecbufHandlers
open Word32 ByteStore FailingState BindingSlots ExecbufState

/-- A 32-bit size less a `sizeof`, which is of 64 bits. -/
def subU64 (a b : ℕ) : ℕ := (a + (2 ^ 64 - b % 2 ^ 64)) % 2 ^ 64

/-- The number of elements after a body of `body` bytes, as a 32-bit unsigned value. -/
def elements (size body elem : ℕ) : ℕ := subU64 size body / elem % 2 ^ 32

def svga3dTsBindTexture : ℕ := 1

def svga3dNumTextureUnits : ℕ := 32

def svga3dRtMax : ℕ := 10

def svga3dQuerytypeMax : ℕ := 17

def svga3dShadertypeMin : ℕ := 1

def svga3dShadertypePredxMax : ℕ := 3

def svga3dShadertypeDx10Max : ℕ := 4

def svga3dNumShadertypeDx10 : ℕ := 3

def svga3dDxMaxConstbuffers : ℕ := 16

def svga3dDxMaxSrviews : ℕ := 128

def svga3dDxMaxVertexbuffers : ℕ := 32

def svga3dMaxSimultaneousRenderTargets : ℕ := 8

def svga3dDxMaxSotargets : ℕ := 4

def svga3dCmdBeginGbQuery : ℕ := 1116

def svga3dCmdEndGbQuery : ℕ := 1117

def svga3dCmdWaitForGbQuery : ℕ := 1118

def svga3dCmdSetGbShaderconstsInline : ℕ := 1130

def svga3dCmdDxDefineShaderresourceView : ℕ := 1185

def svgaCotableDxquery : ℕ := 9

def svgaCotableDxshader : ℕ := 10

def pageSize : ℕ := 4096

section Families
variable {σ : Type} (K : Kernel σ)

/-- The check of a surface id whose resource is not needed afterwards. -/
def sidCheck (idLoc : ℤ) : Check σ Unit := do
  let _ ← vmwCmdResCheck K .surface .surface idLoc
  pure ()

def cidCheck (idLoc : ℤ) : Check σ Unit := do
  let _ ← vmwCmdResCheck K .context .context idLoc
  pure ()

def sidPairCheck (first second : ℤ) : Check σ Unit := do
  sidCheck K first
  sidCheck K second

/-- The `memcpy` that turns a query command into the guest-backed one: a new header id,
    and the other words as they were. -/
def gbRewrite (p : ℤ) (id : ℕ) (words : List ℤ) : Check σ Unit := do
  wr p id
  forEach (fun a => do
    let v ← rd a
    wr a v) words

/-- A shader slot from the type of a command; `SVGA3D_SHADERTYPE_MIN` is subtracted
    without a check. -/
def shaderSlot (type : ℕ) : ℕ := subU32 type svga3dShadertypeMin

def vmwViewCmdToType (id : ℕ) : ViewType :=
  match subU32 id svga3dCmdDxDefineShaderresourceView / 2 with
  | 0 => .sr
  | 1 => .rt
  | 2 => .ds
  | _ => .max

/-- `vmw_view_cotables`, which has no entry for `vmw_view_max`. -/
def vmwViewCotables : ViewType → Option ℕ
  | .sr => some 2
  | .rt => some 0
  | .ds => some 1
  | .max => none

/-- `vmw_so_cotables[vmw_so_cmd_to_type(id)]`. -/
def vmwSoCotables (id : ℕ) : Option ℕ :=
  match id with
  | 1191 | 1192 => some 3
  | 1193 | 1194 => some 4
  | 1195 | 1196 => some 5
  | 1197 | 1198 => some 6
  | 1199 | 1200 => some 7
  | 1204 | 1205 => some 8
  | _ => none

def indexed {α : Type} : Option α → Check σ α
  | some a => pure a
  | none => stop .badIndex

def vmwViewDefineSizes : ViewType → Option ℕ
  | .sr => some 32
  | .rt => some 28
  | .ds => some 32
  | .max => none

def vmwViewIdOk (userKey : ℕ) (viewType : ViewType) : Bool :=
  decide (userKey < svgaCotableMaxIds) && decide (viewType ≠ .max)

def vmwViewAdd (man ctx : ℕ) (srf : Option ℕ) (viewType : ViewType) (userKey cmdSize : ℕ) :
    Check σ Unit := do
  let size ← indexed (vmwViewDefineSizes viewType)
  require (cmdSize = size + 8) (.errno .einval)
  require (vmwViewIdOk userKey viewType) (.errno .einval)
  call (K.viewAlloc cmdSize)
  let s ← deref srf
  call (K.viewCreate man ctx s viewType userKey)

def vmwViewRemove (man userKey : ℕ) (viewType : ViewType) : Check σ (Option ℕ) := do
  require (vmwViewIdOk userKey viewType) (.errno .einval)
  call (K.cmdbufResRemove man viewType userKey)

end Families

variable {σ : Type} (K : Kernel σ) (p : ℤ)

def vmwCmdInvalid : Check σ Unit := fail .einval

def vmwCmdOk : Check σ Unit := pure ()

def vmwCmdCidCheck : Check σ Unit := cidCheck K (p + 8)

def vmwCmdSetRenderTargetCheck : Check σ Unit := do
  let type ← rd (p + 12)
  require (type < svga3dRtMax) (.errno .einval)
  let ctx ← vmwCmdResCheck K .context .context (p + 8)
  let res ← vmwCmdResCheck K .surface .surface (p + 16)
  if K.hasMob then
    let node ← orElse .einval (← vmwExecbufInfoFromRes K ctx)
    vmwBindingAdd ⟨← stagedOf node, ← deref ctx, res, .rt, 0, type, []⟩

def vmwCmdSurfaceCopyCheck : Check σ Unit := sidPairCheck K (p + 8) (p + 20)

def vmwCmdBufferCopyCheck : Check σ Unit := sidPairCheck K (p + 12) (p + 8)

def vmwCmdPredCopyCheck : Check σ Unit := sidPairCheck K (p + 16) (p + 8)

def vmwCmdStretchBltCheck : Check σ Unit := sidPairCheck K (p + 8) (p + 20)

def vmwCmdBltSurfScreenCheck : Check σ Unit := sidCheck K (p + 8)

def vmwCmdPresentCheck : Check σ Unit := sidCheck K (p + 8)

def vmwCmdDxDefineQuery : Check σ Unit := do
  let node ← orElse .einval (← dxCtxNode)
  let type ← rd (p + 12)
  require (type < svga3dQuerytypeMax) (.errno .einval)
  let cotable ← vmwContextCotable K (← ctxOf node) svgaCotableDxquery
  vmwCotableNotify K cotable (← rd (p + 8))

/-- `sw_context->dx_ctx_node` where the code follows it without a check. -/
def derefNode : Option ℕ → Check σ ℕ
  | some node => pure node
  | none => stop .nullNode

def vmwCmdDxBindQuery : Check σ Unit := do
  let bo ← vmwTranslateMobPtr K (p + 12)
  update fun s => { s with dxQueryMob := some bo }
  let node ← derefNode (← dxCtxNode)
  let ctx ← ctxOf node
  update fun s => { s with dxQueryCtx := some ctx }

def vmwCmdBeginGbQuery : Check σ Unit := cidCheck K (p + 8)

def vmwCmdBeginQuery : Check σ Unit := do
  if K.hasMob then
    gbRewrite p svga3dCmdBeginGbQuery [p + 4, p + 8, p + 12]
    vmwCmdBeginGbQuery K p
  else
    cidCheck K (p + 8)

def vmwCmdEndGbQuery : Check σ Unit := do
  let ctx ← vmwCmdResCheck K .context .context (p + 8)
  let bo ← vmwTranslateMobPtr K (p + 16)
  vmwQueryBoSwitchPrepare K ctx bo

def vmwCmdEndQuery : Check σ Unit := do
  if K.hasMob then
    gbRewrite p svga3dCmdEndGbQuery [p + 4, p + 8, p + 12, p + 16, p + 20]
    vmwCmdEndGbQuery K p
  else
    let ctx ← vmwCmdResCheck K .context .context (p + 8)
    let bo ← vmwTranslateGuestPtr K (p + 16)
    vmwQueryBoSwitchPrepare K ctx bo

def vmwCmdWaitGbQuery : Check σ Unit := do
  vmwCmdCidCheck K p
  let _ ← vmwTranslateMobPtr K (p + 16)
  pure ()

def vmwCmdWaitQuery : Check σ Unit := do
  if K.hasMob then
    gbRewrite p svga3dCmdWaitForGbQuery [p + 4, p + 8, p + 12, p + 16, p + 20]
    vmwCmdWaitGbQuery K p
  else
    vmwCmdCidCheck K p
    let _ ← vmwTranslateGuestPtr K (p + 16)
    pure ()

/-- The guest side of a DMA. The suffix lies at the end of the command, wherever
    `header.size` says that is, and its maximum offset is reduced to the buffer. -/
def dmaGuest : Check σ ℕ := do
  let size ← rd (p + 4)
  let suffix := p + 8 + size - 12
  let suffixSize ← rd suffix
  require (suffixSize = 12) (.errno .einval)
  let bo ← vmwTranslateGuestPtr K (p + 8)
  let boSize := pageSize * K.numPages bo % 2 ^ 32
  let offset ← rd (p + 12)
  require (offset ≤ boSize) (.errno .einval)
  let maximumOffset ← rd (suffix + 4)
  runIf (boSize - offset < maximumOffset) (wr (suffix + 4) (boSize - offset))
  pure bo

def vmwCmdDma : Check σ Unit := do
  let bo ← dmaGuest K p
  let named ← vmwCmdResCheck K .surface .surface (p + 20)
  -- the surface is taken from the cache, not from the check
  let srf ← inspect fun s => (s.resCache .surface).res
  noteUse named srf false
  let srf ← deref srf
  act (K.kmsCursorSnoop srf bo p)

def vmwCmdDraw : Check σ Unit := do
  vmwCmdCidCheck K p
  let size ← rd (p + 4)
  let numVertexDecls ← rd (p + 12)
  require (numVertexDecls ≤ elements size 12 36) (.errno .einval)
  repeatFrom (fun i => sidCheck K (p + 20 + 36 * i + 16)) 0 numVertexDecls
  let numRanges ← rd (p + 16)
  require (numRanges ≤ subU64 (subU64 size 12) (numVertexDecls * 36) / 28 % 2 ^ 32)
    (.errno .einval)
  repeatFrom (fun i => sidCheck K (p + 20 + 36 * numVertexDecls + 28 * i + 8)) 0 numRanges

/-- The number of 12-byte states that start before the end of the command. -/
def texStates (size : ℕ) : ℕ := (size + 7) / 12

def texStateCheck (ctx : Option ℕ) (cur : ℤ) : Check σ Unit := do
  let name ← rd (cur + 4)
  if name = svga3dTsBindTexture then
    let stage ← rd cur
    require (stage < svga3dNumTextureUnits) (.errno .einval)
    let res ← vmwCmdResCheck K .surface .surface (cur + 8)
    if K.hasMob then
      let node ← orElse .einval (← vmwExecbufInfoFromRes K ctx)
      vmwBindingAdd ⟨← stagedOf node, ← deref ctx, res, .tex, 0, stage, []⟩

def vmwCmdTexState : Check σ Unit := do
  let size ← rd (p + 4)
  let ctx ← vmwCmdResCheck K .context .context (p + 8)
  repeatFrom (fun i => texStateCheck K ctx (p + 12 + 12 * i)) 0 (texStates size)

def vmwCmdCheckDefineGmrfb : Check σ Unit := do
  let _ ← vmwTranslateGuestPtr K (p + 4)
  pure ()

def vmwCmdBindGbSurface : Check σ Unit :=
  vmwCmdSwitchBackup K .surface .surface (p + 8) (p + 12) 0

def vmwCmdUpdateGbImage : Check σ Unit := sidCheck K (p + 8)

def vmwCmdUpdateGbSurface : Check σ Unit := sidCheck K (p + 8)

def vmwCmdReadbackGbImage : Check σ Unit := sidCheck K (p + 8)

def vmwCmdReadbackGbSurface : Check σ Unit := sidCheck K (p + 8)

def vmwCmdInvalidateGbImage : Check σ Unit := sidCheck K (p + 8)

def vmwCmdInvalidateGbSurface : Check σ Unit := sidCheck K (p + 8)

def vmwCmdShaderDefine : Check σ Unit := do
  let ctx ← vmwCmdResCheck K .context .context (p + 8)
  if K.hasMob then
    let size ← rd (p + 4)
    let shid ← rd (p + 12)
    let type ← rd (p + 16)
    call (K.compatShaderAdd (K.contextResMan (← deref ctx)) shid (p + 20) type (subU64 size 12))
    vmwResourceRelocationAdd K none p .nop

def vmwCmdShaderDestroy : Check σ Unit := do
  let ctx ← vmwCmdResCheck K .context .context (p + 8)
  if K.hasMob then
    let shid ← rd (p + 12)
    let type ← rd (p + 16)
    call (K.shaderRemove (K.contextResMan (← deref ctx)) shid type)
    vmwResourceRelocationAdd K none p .nop

/-- The compat shader of `vmw_cmd_set_shader`, if there is one. -/
def compatShader (ctx : Option ℕ) (shid type : ℕ) : Check σ (Option ℕ) := do
  if shid = svga3dInvalidId then
    pure none
  else do
    let man := K.contextResMan (← deref ctx)
    match ← retOf (call (K.shaderLookup man shid type)) with
    | .ok res => do
      vmwExecbufResNoctxValAdd K res
      pure (some res)
    | .error _ => pure none

def vmwCmdSetShader : Check σ Unit := do
  let type ← rd (p + 12)
  require (type < svga3dShadertypePredxMax) (.errno .einval)
  let ctx ← vmwCmdResCheck K .context .context (p + 8)
  if K.hasMob then
    let shid ← rd (p + 16)
    let compat ← compatShader K ctx shid type
    let res ← (if compat.isSome then pure compat
      else vmwCmdResCheck K .shader .shader (p + 16))
    let node ← orElse .einval (← vmwExecbufInfoFromRes K ctx)
    vmwBindingAdd ⟨← stagedOf node, ← deref ctx, res, .shader, shaderSlot type, 0, []⟩

def vmwCmdSetShaderConst : Check σ Unit := do
  cidCheck K (p + 8)
  if K.hasMob then
    wr p svga3dCmdSetGbShaderconstsInline

def vmwCmdBindGbShader : Check σ Unit := do
  let offsetInBytes ← rd (p + 16)
  vmwCmdSwitchBackup K .shader .shader (p + 8) (p + 12) offsetInBytes

def vmwCmdDxSetSingleConstantBuffer : Check σ Unit := do
  let node ← orElse .einval (← dxCtxNode)
  let res ← vmwCmdResCheck K .surface .surface (p + 16)
  let slot ← rd (p + 8)
  let type ← rd (p + 12)
  let offset ← rd (p + 20)
  let size ← rd (p + 24)
  require (shaderSlot type < svga3dNumShadertypeDx10 && slot < svga3dDxMaxConstbuffers)
    (.errno .einval)
  vmwBindingAdd ⟨← stagedOf node, ← ctxOf node, res, .cb, shaderSlot type, slot,
    [offset, size]⟩

def vmwCmdDxSetShaderRes : Check σ Unit := do
  let size ← rd (p + 4)
  let startView ← rd (p + 8)
  let type ← rd (p + 12)
  let numSrView := elements size 8 4
  require (startView + numSrView ≤ svga3dDxMaxSrviews && type < svga3dShadertypeDx10Max)
    (.errno .einval)
  vmwViewBindingsAdd K .sr .sr (shaderSlot type) (p + 16) numSrView startView

/-- The shader that `vmw_cmd_dx_set_shader` binds, NULL for an invalid id. -/
def dxShader (shaderId : ℕ) : Check σ (Option ℕ) :=
  if shaderId = svga3dInvalidId then pure none
  else do
    let man ← inspect fun s => s.man
    let res ← call (K.shaderLookup man shaderId 0)
    vmwExecbufResNoctxValAdd K res
    pure (some res)

def vmwCmdDxSetShader : Check σ Unit := do
  let node ← orElse .einval (← dxCtxNode)
  let shaderId ← rd (p + 8)
  let type ← rd (p + 12)
  require (type < svga3dShadertypeDx10Max) (.errno .einval)
  let res ← dxShader K shaderId
  vmwBindingAdd ⟨← stagedOf node, ← ctxOf node, res, .dxShader, shaderSlot type, 0, []⟩

/-- The number of 12-byte elements after a 4-byte body, converted to `int`. -/
def numElements (size : ℕ) : ℤ := Int.bmod (elements size 4 12) (2 ^ 32)

def vertexBufferCheck (node startBuffer i : ℕ) : Check σ Unit := do
  let buf := p + 12 + 12 * i
  let res ← vmwCmdResCheck K .surface .surface buf
  let stride ← rd (buf + 4)
  let offset ← rd (buf + 8)
  vmwBindingAdd ⟨← stagedOf node, ← ctxOf node, res, .vb, 0, addU32 i startBuffer,
    [offset, stride]⟩

def vmwCmdDxSetVertexBuffers : Check σ Unit := do
  let node ← orElse .einval (← dxCtxNode)
  let size ← rd (p + 4)
  let startBuffer ← rd (p + 8)
  require ((numElements size + startBuffer) % 2 ^ 64 ≤ svga3dDxMaxVertexbuffers) (.errno .einval)
  repeatFrom (vertexBufferCheck K p node startBuffer) 0 (numElements size).toNat

def vmwCmdDxSetIndexBuffer : Check σ Unit := do
  let node ← orElse .einval (← dxCtxNode)
  let res ← vmwCmdResCheck K .surface .surface (p + 8)
  let format ← rd (p + 12)
  let offset ← rd (p + 16)
  vmwBindingAdd ⟨← stagedOf node, ← ctxOf node, res, .ib, 0, 0, [offset, format]⟩

def vmwCmdDxSetRendertargets : Check σ Unit := do
  let size ← rd (p + 4)
  let numRtView := elements size 4 4
  require (numRtView ≤ svga3dMaxSimultaneousRenderTargets) (.errno .einval)
  vmwViewBindingsAdd K .ds .ds 0 (p + 8) 1 0
  vmwViewBindingsAdd K .rt .dxRt 0 (p + 12) numRtView 0

def viewIdCheck (viewType : ViewType) (idLoc : ℤ) : Check σ Unit := do
  let id ← rd idLoc
  let _ ← vmwViewIdValAdd K viewType id
  pure ()

def vmwCmdDxClearRendertargetView : Check σ Unit := viewIdCheck K .rt (p + 8)

def vmwCmdDxClearDepthstencilView : Check σ Unit := viewIdCheck K .ds (p + 12)

def vmwCmdDxViewDefine : Check σ Unit := do
  let node ← orElse .einval (← dxCtxNode)
  let id ← rd p
  let viewType := vmwViewCmdToType id
  require (viewType ≠ .max) (.errno .einval)
  let srf ← vmwCmdResCheck K .surface .surface (p + 12)
  let ctx ← ctxOf node
  let cotable ← vmwContextCotable K ctx (← indexed (vmwViewCotables viewType))
  let definedId ← rd (p + 8)
  vmwCotableNotify K cotable definedId
  let size ← rd (p + 4)
  let man ← inspect fun s => s.man
  noteUse srf srf false
  vmwViewAdd K man ctx srf viewType definedId (size + 8)

def soTargetCheck (node i : ℕ) : Check σ Unit := do
  let target := p + 12 + 12 * i
  let res ← vmwCmdResCheck K .surface .surface target
  let offset ← rd (target + 4)
  let sizeInBytes ← rd (target + 8)
  vmwBindingAdd ⟨← stagedOf node, ← ctxOf node, res, .so, 0, i, [offset, sizeInBytes]⟩

def vmwCmdDxSetSoTargets : Check σ Unit := do
  let node ← orElse .einval (← dxCtxNode)
  let size ← rd (p + 4)
  require (numElements size ≤ svga3dDxMaxSotargets) (.errno .einval)
  repeatFrom (soTargetCheck K p node) 0 (numElements size).toNat

def vmwCmdDxSoDefine : Check σ Unit := do
  let node ← orElse .einval (← dxCtxNode)
  let id ← rd p
  let cotable ← vmwContextCotable K (← ctxOf node) (← indexed (vmwSoCotables id))
  vmwCotableNotify K cotable (← rd (p + 8))

def vmwCmdDxCheckSubresource : Check σ Unit := sidCheck K (p + 8)

def vmwCmdDxCidCheck : Check σ Unit := do
  let _ ← orElse .einval (← dxCtxNode)
  pure ()

def vmwCmdDxViewRemove : Check σ Unit := do
  let id ← rd p
  let viewType := vmwViewCmdToType id
  let _ ← orElse .einval (← dxCtxNode)
  let man ← inspect fun s => s.man
  let viewId ← rd (p + 8)
  match ← vmwViewRemove K man viewId viewType with
  | none => pure ()
  | some view => vmwResourceRelocationAdd K (some view) p .condNop

def vmwCmdDxDefineShader : Check σ Unit := do
  let node ← orElse .einval (← dxCtxNode)
  let ctx ← ctxOf node
  let cotable ← vmwContextCotable K ctx svgaCotableDxshader
  let shaderId ← rd (p + 8)
  let type ← rd (p + 12)
  vmwCotableNotify K cotable shaderId
  let man ← inspect fun s => s.man
  call (K.dxShaderAdd man ctx shaderId type)

def vmwCmdDxDestroyShader : Check σ Unit := do
  let _ ← orElse .einval (← dxCtxNode)
  let man ← inspect fun s => s.man
  let shaderId ← rd (p + 8)
  call (K.shaderRemove man shaderId 0)

def dxContext : Check σ (Option ℕ) := do
  let node ← orElse .einval (← dxCtxNode)
  let ctx ← ctxOf node
  pure (some ctx)

def vmwCmdDxBindShader : Check σ Unit := do
  let cid ← rd (p + 8)
  let ctx ← (if cid ≠ svga3dInvalidId then vmwCmdResCheck K .context .context (p + 8)
    else dxContext)
  let shid ← rd (p + 12)
  let res ← call (K.shaderLookup (K.contextResMan (← deref ctx)) shid 0)
  vmwExecbufResNoctxValAdd K res
  vmwCmdResSwitchBackup K (some res) (p + 16) (← rd (p + 20))

def vmwCmdDxGenmips : Check σ Unit := viewIdCheck K .sr (p + 8)

def vmwCmdDxTransferFromBuffer : Check σ Unit := sidPairCheck K (p + 8) (p + 24)

def vmwCmdIntraSurfaceCopy : Check σ Unit := do
  require K.intraSurfaceCopy (.errno .einval)
  sidCheck K (p + 8)

end Vmwgfx.ExecbufHandlers

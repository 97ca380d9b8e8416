import Vmwgfx.ExecbufVerifier

set_option autoImplicit false

/-!
# The verifier with a resource cache that can be turned off

The functions of `vmwgfx_execbuf.c` that come to one of the three places where a cache entry
is matched. With `cached` they are the functions of the driver, without it no match is made:
every handle is looked up and every resource goes through `vmw_validation_add_resource`, and
the entries are still written for those who read the last resource of a type.
-/
namespace Vmwgfx.ExecbufCacheMode
open Word32 ByteStore FailingState BindingSlots ExecbufState ExecbufHandlers ExecbufVerifier

section Helpers
variable {σ : Type} (K : Kernel σ) (cached : Bool)

def vmwExecbufResNoctxValAdd (res : ℕ) : Check σ Unit := do
  let t := K.resType res
  if ← inspect fun s => cached && (s.resCache t).holds res then
    pure ()
  else do
    let node ← call (K.validationAddResource res 0)
    vmwExecbufRcacheUpdate t res node.1

def vmwViewResValAdd (view : ℕ) : Check σ Unit := do
  vmwExecbufResNoctxValAdd K cached (K.viewSrf view)
  vmwExecbufResNoctxValAdd K cached view

def vmwViewIdValAdd (viewType : ViewType) (id : ℕ) : Check σ ℕ := do
  let _ ← orElse .einval (← dxCtxNode)
  let man ← inspect fun s => s.man
  let view ← call (K.viewLookup man viewType id)
  vmwViewResValAdd K cached view
  pure view

def cotableValAdd (ctx i : ℕ) : Check σ Unit := do
  match ← vmwContextCotable K ctx i with
  | .error _ => pure ()
  | .ok res => do
    let r ← deref res
    vmwExecbufResNoctxValAdd K cached r

def boundValAdd (res : ℕ) : Check σ Unit :=
  if K.resType res = .view then vmwViewResValAdd K cached res
  else vmwExecbufResNoctxValAdd K cached res

def vmwResourceContextResAdd (ctx : ℕ) : Check σ Unit := do
  let dx := K.hasDx && decide (K.resType ctx = .dxContext)
  runIf dx (repeatFrom (cotableValAdd K cached ctx) 0 svgaCotableDx10Max)
  let bindingList ← inspect fun s => K.contextBindingList ctx s.rest
  let ret ← retOf (forEach (boundValAdd K cached) bindingList)
  let mob ← inspect fun s => if dx then K.contextGetDxQueryMob ctx s.rest else none
  match mob with
  | some bo => vmwValidationAddBo K bo true false
  | none => ofRet ret

def vmwCmdCtxFirstSetup (res node : ℕ) : Check σ Unit := do
  vmwResourceContextResAdd K cached res
  let s ← current
  let shared ← sharedStaged K s.stagedBindings
  let staged ← nodeStaged K s.stagedBindingsInuse shared
  update fun s =>
    { s with
      info := Function.update s.info node ⟨res, K.contextBindingState res, staged⟩
      ctxList := s.ctxList ++ [node] }

def vmwExecbufResNorefValAdd (res : ℕ) : Check σ Unit := do
  let t := K.resType res
  if ← inspect fun s => cached && (s.resCache t).holds res then
    pure ()
  else do
    let privSize := vmwExecbufResSize K t
    let node ← call (K.validationAddResource res privSize)
    runIf (privSize ≠ 0 && node.2) (vmwCmdCtxFirstSetup K cached res node.1)
    vmwExecbufRcacheUpdate t res node.1

def vmwCmdResLookup (t : ResType) (converter : Converter) (id : ℕ) : Check σ (Option ℕ) := do
  call (K.validationPreloadRes (vmwExecbufResSize K t))
  let res ← call (K.userResourceLookup converter id)
  vmwExecbufResNorefValAdd K cached res
  update fun s =>
    if (s.resCache t).holds res then
      { s with resCache := Function.update s.resCache t ((s.resCache t).named id) }
    else s
  pure (some res)

def vmwCmdResCheck (t : ResType) (converter : Converter) (idLoc : ℤ) :
    Check σ (Option ℕ) := do
  let id ← rd idLoc
  update fun s => { s with idReads := s.idReads ++ [⟨idLoc, id⟩] }
  if id = svga3dInvalidId then
    if t = .context then fail .einval else pure none
  else do
    let c ← inspect fun s => s.resCache t
    let res ← (if cached && (c.validHandle && decide (id = c.handle)) then pure c.res
      else vmwCmdResLookup K cached t converter id)
    let ret ← retOf (vmwResourceRelocationAdd K res idLoc .normal)
    noteUnrecorded ret idLoc
    pure res

def viewOf (viewType : ViewType) (id : ℕ) : Check σ (Option ℕ) :=
  if id = svga3dInvalidId then pure none
  else do
    let view ← vmwViewIdValAdd K cached viewType id
    pure (some view)

def vmwViewBindingsAdd (viewType : ViewType) (bt : BindingType) (shaderSlot : ℕ) (viewIds : ℤ)
    (numViews firstSlot : ℕ) : Check σ Unit := do
  let node ← orElse .einval (← dxCtxNode)
  repeatFrom (fun i => do
    let id ← rd (viewIds + 4 * i)
    let view ← viewOf K cached viewType id
    vmwBindingAdd ⟨← stagedOf node, ← ctxOf node, view, bt, shaderSlot,
      addU32 firstSlot i, []⟩) 0 numViews

def vmwCmdSwitchBackup (t : ResType) (converter : Converter) (resId bufId : ℤ)
    (backupOffset : ℕ) : Check σ Unit := do
  let res ← vmwCmdResCheck K cached t converter resId
  vmwCmdResSwitchBackup K res bufId backupOffset

def vmwExecbufTieContext (handle : ℕ) : Check σ Unit :=
  if handle = svga3dInvalidId then pure ()
  else do
    call (K.validationPreloadRes (vmwExecbufResSize K .dxContext))
    let res ← call (K.userResourceLookup .context handle)
    vmwExecbufResNorefValAdd K cached res
    let node ← vmwExecbufInfoFromRes K (some res)
    update fun s => { s with dxCtxNode := node, man := K.contextResMan res }

def sidCheck (idLoc : ℤ) : Check σ Unit := do
  let _ ← vmwCmdResCheck K cached .surface .surface idLoc
  pure ()

def cidCheck (idLoc : ℤ) : Check σ Unit := do
  let _ ← vmwCmdResCheck K cached .context .context idLoc
  pure ()

def sidPairCheck (first second : ℤ) : Check σ Unit := do
  sidCheck K cached first
  sidCheck K cached second

def viewIdCheck (viewType : ViewType) (idLoc : ℤ) : Check σ Unit := do
  let id ← rd idLoc
  let _ ← vmwViewIdValAdd K cached viewType id
  pure ()

end Helpers

section Handlers
variable {σ : Type} (K : Kernel σ) (cached : Bool) (p : ℤ)

def vmwCmdSetRenderTargetCheck : Check σ Unit := do
  let type ← rd (p + 12)
  require (type < svga3dRtMax) (.errno .einval)
  let ctx ← vmwCmdResCheck K cached .context .context (p + 8)
  let res ← vmwCmdResCheck K cached .surface .surface (p + 16)
  if K.hasMob then
    let node ← orElse .einval (← vmwExecbufInfoFromRes K ctx)
    vmwBindingAdd ⟨← stagedOf node, ← deref ctx, res, .rt, 0, type, []⟩

def vmwCmdBeginQuery : Check σ Unit := do
  if K.hasMob then
    gbRewrite p svga3dCmdBeginGbQuery [p + 4, p + 8, p + 12]
    cidCheck K cached (p + 8)
  else
    cidCheck K cached (p + 8)

def vmwCmdEndGbQuery : Check σ Unit := do
  let ctx ← vmwCmdResCheck K cached .context .context (p + 8)
  let bo ← vmwTranslateMobPtr K (p + 16)
  vmwQueryBoSwitchPrepare K ctx bo

def vmwCmdEndQuery : Check σ Unit := do
  if K.hasMob then
    gbRewrite p svga3dCmdEndGbQuery [p + 4, p + 8, p + 12, p + 16, p + 20]
    vmwCmdEndGbQuery K cached p
  else
    let ctx ← vmwCmdResCheck K cached .context .context (p + 8)
    let bo ← vmwTranslateGuestPtr K (p + 16)
    vmwQueryBoSwitchPrepare K ctx bo

def vmwCmdWaitGbQuery : Check σ Unit := do
  cidCheck K cached (p + 8)
  let _ ← vmwTranslateMobPtr K (p + 16)
  pure ()

def vmwCmdWaitQuery : Check σ Unit := do
  if K.hasMob then
    gbRewrite p svga3dCmdWaitForGbQuery [p + 4, p + 8, p + 12, p + 16, p + 20]
    vmwCmdWaitGbQuery K cached p
  else
    cidCheck K cached (p + 8)
    let _ ← vmwTranslateGuestPtr K (p + 16)
    pure ()

def vmwCmdDma : Check σ Unit := do
  let bo ← dmaGuest K p
  let named ← vmwCmdResCheck K cached .surface .surface (p + 20)
  let srf ← inspect fun s => (s.resCache .surface).res
  noteUse named srf false
  let srf ← deref srf
  act (K.kmsCursorSnoop srf bo p)

def vmwCmdDraw : Check σ Unit := do
  cidCheck K cached (p + 8)
  let size ← rd (p + 4)
  let numVertexDecls ← rd (p + 12)
  require (numVertexDecls ≤ elements size 12 36) (.errno .einval)
  repeatFrom (fun i => sidCheck K cached (p + 20 + 36 * i + 16)) 0 numVertexDecls
  let numRanges ← rd (p + 16)
  require (numRanges ≤ subU64 (subU64 size 12) (numVertexDecls * 36) / 28 % 2 ^ 32)
    (.errno .einval)
  repeatFrom (fun i => sidCheck K cached (p + 20 + 36 * numVertexDecls + 28 * i + 8)) 0 numRanges

def texStateCheck (ctx : Option ℕ) (cur : ℤ) : Check σ Unit := do
  let name ← rd (cur + 4)
  if name = svga3dTsBindTexture then
    let stage ← rd cur
    require (stage < svga3dNumTextureUnits) (.errno .einval)
    let res ← vmwCmdResCheck K cached .surface .surface (cur + 8)
    if K.hasMob then
      let node ← orElse .einval (← vmwExecbufInfoFromRes K ctx)
      vmwBindingAdd ⟨← stagedOf node, ← deref ctx, res, .tex, 0, stage, []⟩

def vmwCmdTexState : Check σ Unit := do
  let size ← rd (p + 4)
  let ctx ← vmwCmdResCheck K cached .context .context (p + 8)
  repeatFrom (fun i => texStateCheck K cached ctx (p + 12 + 12 * i)) 0 (texStates size)

def vmwCmdShaderDefine : Check σ Unit := do
  let ctx ← vmwCmdResCheck K cached .context .context (p + 8)
  if K.hasMob then
    let size ← rd (p + 4)
    let shid ← rd (p + 12)
    let type ← rd (p + 16)
    call (K.compatShaderAdd (K.contextResMan (← deref ctx)) shid (p + 20) type (subU64 size 12))
    vmwResourceRelocationAdd K none p .nop

def vmwCmdShaderDestroy : Check σ Unit := do
  let ctx ← vmwCmdResCheck K cached .context .context (p + 8)
  if K.hasMob then
    let shid ← rd (p + 12)
    let type ← rd (p + 16)
    call (K.shaderRemove (K.contextResMan (← deref ctx)) shid type)
    vmwResourceRelocationAdd K none p .nop

def compatShader (ctx : Option ℕ) (shid type : ℕ) : Check σ (Option ℕ) := do
  if shid = svga3dInvalidId then
    pure none
  else do
    let man := K.contextResMan (← deref ctx)
    match ← retOf (call (K.shaderLookup man shid type)) with
    | .ok res => do
      vmwExecbufResNoctxValAdd K cached res
      pure (some res)
    | .error _ => pure none

def vmwCmdSetShader : Check σ Unit := do
  let type ← rd (p + 12)
  require (type < svga3dShadertypePredxMax) (.errno .einval)
  let ctx ← vmwCmdResCheck K cached .context .context (p + 8)
  if K.hasMob then
    let shid ← rd (p + 16)
    let compat ← compatShader K cached ctx shid type
    let res ← (if compat.isSome then pure compat
      else vmwCmdResCheck K cached .shader .shader (p + 16))
    let node ← orElse .einval (← vmwExecbufInfoFromRes K ctx)
    vmwBindingAdd ⟨← stagedOf node, ← deref ctx, res, .shader, shaderSlot type, 0, []⟩

def vmwCmdSetShaderConst : Check σ Unit := do
  cidCheck K cached (p + 8)
  if K.hasMob then
    wr p svga3dCmdSetGbShaderconstsInline

def vmwCmdBindGbShader : Check σ Unit := do
  let offsetInBytes ← rd (p + 16)
  vmwCmdSwitchBackup K cached .shader .shader (p + 8) (p + 12) offsetInBytes

def vmwCmdDxSetSingleConstantBuffer : Check σ Unit := do
  let node ← orElse .einval (← dxCtxNode)
  let res ← vmwCmdResCheck K cached .surface .surface (p + 16)
  let slot ← rd (p + 8)
  let type ← rd (p + 12)
  let offset ← rd (p + 20)
  let size ← rd (p + 24)
  require (shaderSlot type < svga3dNumShadertypeDx10 && slot < svga3dDxMaxConstbuffers)
    (.errno .einval)
  vmwBindingAdd ⟨← stagedOf node, ← ctxOf node, res, .cb, shaderSlot type, slot,
    [offset, size]⟩

def vmwCmdDxSetShaderRes : Check σ Unit := do
  let size ← rd (p + 4)
  let startView ← rd (p + 8)
  let type ← rd (p + 12)
  let numSrView := elements size 8 4
  require (startView + numSrView ≤ svga3dDxMaxSrviews && type < svga3dShadertypeDx10Max)
    (.errno .einval)
  vmwViewBindingsAdd K cached .sr .sr (shaderSlot type) (p + 16) numSrView startView

def dxShader (shaderId : ℕ) : Check σ (Option ℕ) :=
  if shaderId = svga3dInvalidId then pure none
  else do
    let man ← inspect fun s => s.man
    let res ← call (K.shaderLookup man shaderId 0)
    vmwExecbufResNoctxValAdd K cached res
    pure (some res)

def vmwCmdDxSetShader : Check σ Unit := do
  let node ← orElse .einval (← dxCtxNode)
  let shaderId ← rd (p + 8)
  let type ← rd (p + 12)
  require (type < svga3dShadertypeDx10Max) (.errno .einval)
  let res ← dxShader K cached shaderId
  vmwBindingAdd ⟨← stagedOf node, ← ctxOf node, res, .dxShader, shaderSlot type, 0, []⟩

def vertexBufferCheck (node startBuffer i : ℕ) : Check σ Unit := do
  let buf := p + 12 + 12 * i
  let res ← vmwCmdResCheck K cached .surface .surface buf
  let stride ← rd (buf + 4)
  let offset ← rd (buf + 8)
  vmwBindingAdd ⟨← stagedOf node, ← ctxOf node, res, .vb, 0, addU32 i startBuffer,
    [offset, stride]⟩

def vmwCmdDxSetVertexBuffers : Check σ Unit := do
  let node ← orElse .einval (← dxCtxNode)
  let size ← rd (p + 4)
  let startBuffer ← rd (p + 8)
  require ((numElements size + startBuffer) % 2 ^ 64 ≤ svga3dDxMaxVertexbuffers) (.errno .einval)
  repeatFrom (vertexBufferCheck K cached p node startBuffer) 0 (numElements size).toNat

def vmwCmdDxSetIndexBuffer : Check σ Unit := do
  let node ← orElse .einval (← dxCtxNode)
  let res ← vmwCmdResCheck K cached .surface .surface (p + 8)
  let format ← rd (p + 12)
  let offset ← rd (p + 16)
  vmwBindingAdd ⟨← stagedOf node, ← ctxOf node, res, .ib, 0, 0, [offset, format]⟩

def vmwCmdDxSetRendertargets : Check σ Unit := do
  let size ← rd (p + 4)
  let numRtView := elements size 4 4
  require (numRtView ≤ svga3dMaxSimultaneousRenderTargets) (.errno .einval)
  vmwViewBindingsAdd K cached .ds .ds 0 (p + 8) 1 0
  vmwViewBindingsAdd K cached .rt .dxRt 0 (p + 12) numRtView 0

def vmwCmdDxViewDefine : Check σ Unit := do
  let node ← orElse .einval (← dxCtxNode)
  let id ← rd p
  let viewType := vmwViewCmdToType id
  require (viewType ≠ .max) (.errno .einval)
  let srf ← vmwCmdResCheck K cached .surface .surface (p + 12)
  let ctx ← ctxOf node
  let cotable ← vmwContextCotable K ctx (← indexed (vmwViewCotables viewType))
  let definedId ← rd (p + 8)
  vmwCotableNotify K cotable definedId
  let size ← rd (p + 4)
  let man ← inspect fun s => s.man
  noteUse srf srf false
  vmwViewAdd K man ctx srf viewType definedId (size + 8)

def soTargetCheck (node i : ℕ) : Check σ Unit := do
  let target := p + 12 + 12 * i
  let res ← vmwCmdResCheck K cached .surface .surface target
  let offset ← rd (target + 4)
  let sizeInBytes ← rd (target + 8)
  vmwBindingAdd ⟨← stagedOf node, ← ctxOf node, res, .so, 0, i, [offset, sizeInBytes]⟩

def vmwCmdDxSetSoTargets : Check σ Unit := do
  let node ← orElse .einval (← dxCtxNode)
  let size ← rd (p + 4)
  require (numElements size ≤ svga3dDxMaxSotargets) (.errno .einval)
  repeatFrom (soTargetCheck K cached p node) 0 (numElements size).toNat

def dxBoundShader : Check σ ℕ := do
  let cid ← rd (p + 8)
  let ctx ← (if cid ≠ svga3dInvalidId then vmwCmdResCheck K cached .context .context (p + 8)
    else dxContext)
  let shid ← rd (p + 12)
  call (K.shaderLookup (K.contextResMan (← deref ctx)) shid 0)

def vmwCmdDxBindShader : Check σ Unit := do
  let res ← dxBoundShader K cached p
  vmwExecbufResNoctxValAdd K cached res
  vmwCmdResSwitchBackup K (some res) (p + 16) (← rd (p + 20))

def vmwCmdIntraSurfaceCopy : Check σ Unit := do
  require K.intraSurfaceCopy (.errno .einval)
  sidCheck K cached (p + 8)

/-- The commands that name no resource are as they were. -/
def run : Handler → Check σ Unit
  | .cidCheck | .beginGbQuery => cidCheck K cached (p + 8)
  | .setRenderTargetCheck => vmwCmdSetRenderTargetCheck K cached p
  | .surfaceCopyCheck | .stretchBltCheck => sidPairCheck K cached (p + 8) (p + 20)
  | .bufferCopyCheck => sidPairCheck K cached (p + 12) (p + 8)
  | .predCopyCheck => sidPairCheck K cached (p + 16) (p + 8)
  | .bltSurfScreenCheck | .presentCheck | .updateGbImage | .updateGbSurface | .readbackGbImage
  | .readbackGbSurface | .invalidateGbImage | .invalidateGbSurface | .dxCheckSubresource =>
    sidCheck K cached (p + 8)
  | .beginQuery => vmwCmdBeginQuery K cached p
  | .endGbQuery => vmwCmdEndGbQuery K cached p
  | .endQuery => vmwCmdEndQuery K cached p
  | .waitGbQuery => vmwCmdWaitGbQuery K cached p
  | .waitQuery => vmwCmdWaitQuery K cached p
  | .dma => vmwCmdDma K cached p
  | .draw => vmwCmdDraw K cached p
  | .texState => vmwCmdTexState K cached p
  | .bindGbSurface => vmwCmdSwitchBackup K cached .surface .surface (p + 8) (p + 12) 0
  | .shaderDefine => vmwCmdShaderDefine K cached p
  | .shaderDestroy => vmwCmdShaderDestroy K cached p
  | .setShader => vmwCmdSetShader K cached p
  | .setShaderConst => vmwCmdSetShaderConst K cached p
  | .bindGbShader => vmwCmdBindGbShader K cached p
  | .dxSetSingleConstantBuffer => vmwCmdDxSetSingleConstantBuffer K cached p
  | .dxSetShaderRes => vmwCmdDxSetShaderRes K cached p
  | .dxSetShader => vmwCmdDxSetShader K cached p
  | .dxSetVertexBuffers => vmwCmdDxSetVertexBuffers K cached p
  | .dxSetIndexBuffer => vmwCmdDxSetIndexBuffer K cached p
  | .dxSetRendertargets => vmwCmdDxSetRendertargets K cached p
  | .dxClearRendertargetView => viewIdCheck K cached .rt (p + 8)
  | .dxClearDepthstencilView => viewIdCheck K cached .ds (p + 12)
  | .dxViewDefine => vmwCmdDxViewDefine K cached p
  | .dxSetSoTargets => vmwCmdDxSetSoTargets K cached p
  | .dxBindShader => vmwCmdDxBindShader K cached p
  | .dxGenmips => viewIdCheck K cached .sr (p + 8)
  | .dxTransferFromBuffer => sidPairCheck K cached (p + 8) (p + 24)
  | .intraSurfaceCopy => vmwCmdIntraSurfaceCopy K cached p
  | h => h.run K p

end Handlers

theorem run_cached {σ : Type} (K : Kernel σ) (p : ℤ) (h : Handler) : run K true p h = h.run K p := by
  cases h
  case dxBindShader =>
    change vmwCmdDxBindShader K true p = _
    unfold vmwCmdDxBindShader dxBoundShader
    simp only [andThen_assoc]
    rfl
  all_goals rfl

section Loop
variable {σ : Type} (K : Kernel σ) (cached : Bool)

def runEntry (func : Handler) (buf : ℤ) : Check σ Unit := do
  match ← retOf (run K cached buf func) with
  | .ok _ => pure ()
  | .error _ => fail .einval

def vmwCmdCheck (buf : ℤ) (sizeRemaining : ℕ) : Check σ ℕ := do
  let id ← rd buf
  if id < svgaCmdMax then
    vmwCmdCheckNot3d K buf sizeRemaining
  else do
    let headerSize ← rd (buf + 4)
    let size := addU32 headerSize 8
    require (size ≤ sizeRemaining) (.errno .einval)
    require (subU32 id svga3dCmdBase < svga3dCmdMax - svga3dCmdBase) (.errno .einval)
    let entry ← orElse .einval (cmdEntry id)
    let kernel ← inspect fun s => s.kernel
    require (entry.userAllow || kernel) (.errno .eperm)
    require (!(entry.gbDisable && K.gb)) (.errno .einval)
    require (!(entry.gbEnable && !K.gb)) (.errno .einval)
    runEntry K cached entry.func buf
    pure size

def checkLoop : ℕ → ℤ → ℤ → Check σ (Option (List ℕ))
  | 0, _, curSize =>
    if 0 < curSize then pure none
    else if curSize = 0 then pure (some [])
    else fail .einval
  | fuel + 1, buf, curSize =>
    if 0 < curSize then do
      let size ← vmwCmdCheck K cached buf curSize.toNat
      let sizes ← checkLoop fuel (buf + size) (Int.bmod (curSize - size) (2 ^ 32))
      pure (sizes.map fun l => size :: l)
    else if curSize = 0 then pure (some [])
    else fail .einval

/-- `vmw_execbuf_process` up to the end of the commands. -/
def checkBatch (handle fuel size : ℕ) : Check σ (Option (List ℕ)) := do
  vmwExecbufTieContext K cached handle
  checkLoop K cached fuel 0 (Int.bmod size (2 ^ 32))

variable {K}

theorem vmwCmdCheck_cached (buf : ℤ) (n : ℕ) :
    vmwCmdCheck K true buf n = ExecbufVerifier.vmwCmdCheck K buf n := by
  have hentry : ∀ h p, runEntry K true h p = ExecbufVerifier.runEntry K h p := by
    intro h p
    rw [runEntry, run_cached]
    rfl
  simp only [vmwCmdCheck, ExecbufVerifier.vmwCmdCheck, hentry]

theorem checkLoop_cached (fuel : ℕ) (buf cur : ℤ) :
    checkLoop K true fuel buf cur = ExecbufVerifier.checkLoop K fuel buf cur := by
  induction fuel generalizing buf cur with
  | zero => rfl
  | succ fuel ih => simp only [checkLoop, ExecbufVerifier.checkLoop, vmwCmdCheck_cached, ih]

theorem checkBatch_cached (handle fuel size : ℕ) : checkBatch K true handle fuel size = (do
    ExecbufState.vmwExecbufTieContext K handle
    vmwCmdCheckAll K fuel size) := by
  simp only [checkBatch, vmwCmdCheckAll, checkLoop_cached]
  rfl

end Loop

end Vmwgfx.ExecbufCacheMode

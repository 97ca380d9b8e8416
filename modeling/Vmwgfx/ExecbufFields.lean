import Vmwgfx.ExecbufTrail

set_option autoImplicit false

/-!
# The id fields of a command

For each handler the locations that it hands to `vmw_cmd_res_check` when it succeeds, told
from the state before the command, and the bytes of the stream that it changes.
-/
namespace Vmwgfx.ExecbufFields
open Word32 ByteStore FailingState BindingSlots ExecbufState ExecbufHandlers ExecbufVerifier ExecbufTrail

variable {σ α : Type} {K : Kernel σ} {p : ℤ} {q : List ℤ} {s t : SwContext σ}

/-- `vmw_cmd_set_shader` found no compat shader, so that the id is checked as a handle. -/
def compatMissed (K : Kernel σ) (p : ℤ) (s : SwContext σ) : Bool :=
  match vmwCmdResCheck K .context .context (p + 8) s with
  | (.ok ctx, t) =>
    match compatShader K ctx (word s.mem (p + 16)) (word s.mem (p + 12)) t with
    | (.ok none, _) => true
    | _ => false
  | _ => false

/-- The surface ids of the vertex declarations and of the index ranges. -/
def drawIds (mem : Memory) (p : ℤ) : List ℤ :=
  (List.range' 0 (word mem (p + 12))).flatMap (fun i : ℕ => [p + 20 + 36 * (i : ℤ) + 16]) ++
    (List.range' 0 (word mem (p + 16))).flatMap fun i : ℕ =>
      [p + 20 + 36 * word mem (p + 12) + 28 * i + 8]

def texStateId (mem : Memory) (cur : ℤ) : List ℤ :=
  if word mem (cur + 4) = svga3dTsBindTexture then [cur + 8] else []

def elementIds (mem : Memory) (p : ℤ) : List ℤ :=
  (List.range' 0 (numElements (word mem (p + 4))).toNat).flatMap fun i : ℕ => [p + 12 + 12 * i]

def idFields (K : Kernel σ) (p : ℤ) (s : SwContext σ) : Handler → List ℤ
  | .cidCheck | .bltSurfScreenCheck | .presentCheck | .beginGbQuery | .beginQuery
  | .endGbQuery | .endQuery | .waitGbQuery | .waitQuery | .bindGbSurface | .updateGbImage
  | .updateGbSurface | .readbackGbImage | .readbackGbSurface | .invalidateGbImage
  | .invalidateGbSurface | .shaderDefine | .shaderDestroy | .setShaderConst | .bindGbShader
  | .dxSetIndexBuffer | .dxCheckSubresource | .intraSurfaceCopy => [p + 8]
  | .setRenderTargetCheck => [p + 8, p + 16]
  | .surfaceCopyCheck | .stretchBltCheck => [p + 8, p + 20]
  | .bufferCopyCheck => [p + 12, p + 8]
  | .predCopyCheck => [p + 16, p + 8]
  | .dxTransferFromBuffer => [p + 8, p + 24]
  | .dma => [p + 20]
  | .draw => [p + 8] ++ drawIds s.mem p
  | .texState => [p + 8] ++ (List.range' 0 (texStates (word s.mem (p + 4)))).flatMap fun i : ℕ =>
      texStateId s.mem (p + 12 + 12 * i)
  | .setShader => if K.hasMob && compatMissed K p s then [p + 8, p + 16] else [p + 8]
  | .dxSetSingleConstantBuffer => [p + 16]
  | .dxSetVertexBuffers | .dxSetSoTargets => elementIds s.mem p
  | .dxViewDefine => [p + 12]
  | .dxBindShader => if word s.mem (p + 8) ≠ svga3dInvalidId then [p + 8] else []
  | .invalid | .ok | .dxDefineQuery | .dxBindQuery | .dxSetShaderRes | .dxSetShader
  | .dxSetRendertargets | .dxClearRendertargetView | .dxClearDepthstencilView | .dxSoDefine
  | .dxCidCheck | .dxViewRemove | .dxDefineShader | .dxDestroyShader | .dxGenmips => []

/-- `vmw_cmd_dx_view_remove` finds a view to remove. -/
def removesView (K : Kernel σ) (p : ℤ) (s : SwContext σ) : Bool :=
  match vmwViewRemove K s.man (word s.mem (p + 8)) (vmwViewCmdToType (word s.mem p)) s with
  | (.ok (some _), _) => true
  | _ => false

def headerSites (K : Kernel σ) (p : ℤ) (s : SwContext σ) : Handler → List ℤ
  | .shaderDefine | .shaderDestroy => [p]
  | .dxViewRemove => if removesView K p s then [p] else []
  | _ => []

section Quiet

theorem rd_quiet (a : ℤ) : Keeps Quiet anyStop (rd a : Check σ ℕ) := keeps_inspect _

theorem dxCtxNode_quiet : Keeps Quiet anyStop (dxCtxNode : Check σ (Option ℕ)) := keeps_inspect _

theorem stagedOf_quiet (n : ℕ) : Keeps Quiet anyStop (stagedOf n : Check σ ℕ) := keeps_inspect _

theorem ctxOf_quiet (n : ℕ) : Keeps Quiet anyStop (ctxOf n : Check σ ℕ) := keeps_inspect _

theorem vmwBindingAdd_quiet (b : Binding) : Keeps Quiet anyStop (vmwBindingAdd b : Check σ Unit) :=
  keeps_update fun _ => ⟨rfl, rfl, rfl, rfl⟩

theorem noteUse_quiet (named used : Option ℕ) (query : Bool) :
    Keeps Quiet anyStop (noteUse named used query : Check σ Unit) :=
  keeps_update fun _ => ⟨rfl, rfl, rfl, rfl⟩

theorem orElse_quiet (e : Errno) (o : Option α) :
    Keeps Quiet anyStop (orElse e o : Check σ α) := by
  cases o
  · exact keeps_stop trivial
  · exact keeps_pure _

theorem deref_quiet (o : Option α) : Keeps Quiet anyStop (deref o : Check σ α) := by
  cases o
  · exact keeps_stop trivial
  · exact keeps_pure _

theorem derefNode_quiet (o : Option ℕ) : Keeps Quiet anyStop (derefNode o : Check σ ℕ) := by
  cases o
  · exact keeps_stop trivial
  · exact keeps_pure _

theorem indexed_quiet (o : Option α) : Keeps Quiet anyStop (indexed o : Check σ α) := by
  cases o
  · exact keeps_stop trivial
  · exact keeps_pure _

theorem call_quiet (K : Kernel σ) (op : Op σ α) : Keeps Quiet anyStop (call op) :=
  keeps_quiet (call_still (K := K) op)

theorem vmwTranslateMobPtr_quiet (a : ℤ) : Keeps Quiet anyStop (vmwTranslateMobPtr K a) :=
  keeps_quiet (vmwTranslateMobPtr_still a)

theorem vmwTranslateGuestPtr_quiet (a : ℤ) : Keeps Quiet anyStop (vmwTranslateGuestPtr K a) :=
  keeps_quiet (vmwTranslateGuestPtr_still a)

theorem vmwCotableNotify_quiet (res : Except Errno (Option ℕ)) (id : ℕ) :
    Keeps Quiet anyStop (vmwCotableNotify K res id) :=
  keeps_quiet (vmwCotableNotify_still res id fun _ => trivial)

theorem vmwExecbufInfoFromRes_quiet (res : Option ℕ) :
    Keeps Quiet anyStop (vmwExecbufInfoFromRes K res) := by
  refine (noteUse_quiet res res _).bind fun _ => ?_
  exact (deref_quiet res).bind fun r => keeps_inspect _

theorem vmwCmdResSwitchBackup_quiet (res : Option ℕ) (bufId : ℤ) (offset : ℕ) :
    Keeps Quiet anyStop (vmwCmdResSwitchBackup K res bufId offset) := by
  refine (vmwExecbufInfoFromRes_quiet res).bind fun info => ?_
  refine (orElse_quiet _ info).bind fun node => ?_
  refine (vmwTranslateMobPtr_quiet bufId).bind fun vbo => ?_
  exact keeps_update fun _ => ⟨rfl, rfl, rfl, rfl⟩

theorem vmwValidationAddBo_quiet (bo : ℕ) (asMob cpuBlit : Bool) :
    Keeps Quiet anyStop (vmwValidationAddBo K bo asMob cpuBlit) :=
  keeps_quiet (vmwValidationAddBo_still bo asMob cpuBlit)

theorem queryBoBarrier_quiet (o : Option ℕ) : Keeps Quiet anyStop (queryBoBarrier K o) := by
  cases o
  · exact keeps_pure _
  · exact (keeps_update fun _ => ⟨rfl, rfl, rfl, rfl⟩).bind fun _ => vmwValidationAddBo_quiet _ _ _

theorem vmwQueryBoSwitchPrepare_quiet (ctx : Option ℕ) (bo : ℕ) :
    Keeps Quiet anyStop (vmwQueryBoSwitchPrepare K ctx bo) := by
  refine (keeps_inspect _).bind fun s => ?_
  refine (keeps_require _ trivial).bind fun _ => ?_
  refine (noteUse_quiet ctx _ _).bind fun _ => ?_
  refine (keeps_update fun _ => ⟨rfl, rfl, rfl, rfl⟩).bind fun _ => ?_
  refine Keeps.runIf ?_ _
  refine (keeps_require _ trivial).bind fun _ => ?_
  refine (queryBoBarrier_quiet _).bind fun _ => ?_
  exact (keeps_update fun _ => ⟨rfl, rfl, rfl, rfl⟩).bind fun _ => vmwValidationAddBo_quiet _ _ _

theorem dxBinding_quiet (node : ℕ) (b : ℕ → ℕ → Binding) : Keeps Quiet anyStop (do
    let staged ← stagedOf node
    let c ← ctxOf node
    vmwBindingAdd (b staged c) : Check σ Unit) := by
  refine (stagedOf_quiet node).bind fun staged => ?_
  exact (ctxOf_quiet node).bind fun c => vmwBindingAdd_quiet _

theorem vmwViewBindingsAdd_quiet (viewType : ViewType) (bt : BindingType) (shaderSlot : ℕ)
    (viewIds : ℤ) (numViews firstSlot : ℕ) : Keeps Quiet anyStop
      (vmwViewBindingsAdd K viewType bt shaderSlot viewIds numViews firstSlot) := by
  refine dxCtxNode_quiet.bind fun node => ?_
  refine (orElse_quiet _ node).bind fun n => ?_
  refine Keeps.repeatFrom (fun i => ?_) _ _
  refine (rd_quiet _).bind fun id => ?_
  refine (keeps_quiet (viewOf_still viewType id)).bind fun view => ?_
  exact dxBinding_quiet n fun staged c => ⟨staged, c, view, bt, shaderSlot, addU32 firstSlot i, []⟩

end Quiet

section Leaves

theorem sidCheck_leaves (a : ℤ) : Leaves q (sidCheck K a) [a] :=
  (vmwCmdResCheck_leaves _ _ a).bind_quiet fun _ => keeps_pure _

theorem cidCheck_leaves (a : ℤ) : Leaves q (cidCheck K a) [a] :=
  (vmwCmdResCheck_leaves _ _ a).bind_quiet fun _ => keeps_pure _

theorem vmwCmdCidCheck_leaves : Leaves q (vmwCmdCidCheck K p) [p + 8] := cidCheck_leaves (p + 8)

theorem sidPairCheck_leaves (a b : ℤ) : Leaves q (sidPairCheck K a b) [a, b] :=
  (sidCheck_leaves a).bind fun _ => sidCheck_leaves b

theorem nodeBinding_quiet (ctx : Option ℕ) (b : ℕ → ℕ → Binding) : Keeps Quiet anyStop (do
    let info ← vmwExecbufInfoFromRes K ctx
    let node ← orElse .einval info
    let staged ← stagedOf node
    let c ← deref ctx
    vmwBindingAdd (b staged c)) := by
  refine (vmwExecbufInfoFromRes_quiet ctx).bind fun info => ?_
  refine (orElse_quiet _ info).bind fun node => ?_
  refine (stagedOf_quiet node).bind fun staged => ?_
  exact (deref_quiet ctx).bind fun c => vmwBindingAdd_quiet _

theorem vmwCmdSetRenderTargetCheck_leaves :
    Leaves q (vmwCmdSetRenderTargetCheck K p) [p + 8, p + 16] := by
  refine .quiet_bind (rd_quiet _) fun type => ?_
  refine .quiet_bind (keeps_require _ trivial) fun _ => ?_
  change Leaves q _ ([p + 8] ++ [p + 16])
  refine (vmwCmdResCheck_leaves _ _ (p + 8)).bind fun ctx => ?_
  refine (vmwCmdResCheck_leaves _ _ (p + 16)).bind_quiet fun res => ?_
  split
  · exact nodeBinding_quiet ctx fun staged c => ⟨staged, c, res, .rt, 0, type, []⟩
  · exact keeps_pure _

theorem vmwCmdSwitchBackup_leaves (r : ResType) (c : Converter) (a b : ℤ) (n : ℕ) :
    Leaves q (vmwCmdSwitchBackup K r c a b n) [a] := by
  exact (vmwCmdResCheck_leaves r c a).bind_quiet fun res => vmwCmdResSwitchBackup_quiet res b n

theorem vmwCmdBindGbShader_leaves : Leaves q (vmwCmdBindGbShader K p) [p + 8] := by
  exact .quiet_bind (rd_quiet _) fun _ => vmwCmdSwitchBackup_leaves _ _ _ _ _

theorem vmwCmdEndGbQuery_leaves : Leaves q (vmwCmdEndGbQuery K p) [p + 8] := by
  refine (vmwCmdResCheck_leaves _ _ (p + 8)).bind_quiet fun ctx => ?_
  exact (vmwTranslateMobPtr_quiet _).bind fun bo => vmwQueryBoSwitchPrepare_quiet ctx bo

theorem vmwCmdWaitGbQuery_leaves : Leaves q (vmwCmdWaitGbQuery K p) [p + 8] := by
  refine vmwCmdCidCheck_leaves.bind_quiet fun _ => ?_
  exact (vmwTranslateMobPtr_quiet _).bind fun _ => keeps_pure _

theorem vmwCmdShaderDefine_leaves : Leaves [p] (vmwCmdShaderDefine K p) [p + 8] := by
  change Leaves [p] _ ([p + 8] ++ [])
  refine (vmwCmdResCheck_leaves _ _ (p + 8)).bind fun ctx => ?_
  split
  · refine .quiet_bind (rd_quiet _) fun size => ?_
    refine .quiet_bind (rd_quiet _) fun shid => ?_
    refine .quiet_bind (rd_quiet _) fun type => ?_
    refine .quiet_bind (deref_quiet ctx) fun c => ?_
    exact .quiet_bind (call_quiet K _) fun _ => vmwResourceRelocationAdd_leaves _ p (by decide)
  · exact leaves_quiet (keeps_pure _)

theorem vmwCmdShaderDestroy_leaves : Leaves [p] (vmwCmdShaderDestroy K p) [p + 8] := by
  change Leaves [p] _ ([p + 8] ++ [])
  refine (vmwCmdResCheck_leaves _ _ (p + 8)).bind fun ctx => ?_
  split
  · refine .quiet_bind (rd_quiet _) fun shid => ?_
    refine .quiet_bind (rd_quiet _) fun type => ?_
    refine .quiet_bind (deref_quiet ctx) fun c => ?_
    exact .quiet_bind (call_quiet K _) fun _ => vmwResourceRelocationAdd_leaves _ p (by decide)
  · exact leaves_quiet (keeps_pure _)

theorem vmwCmdDxSetSingleConstantBuffer_leaves :
    Leaves q (vmwCmdDxSetSingleConstantBuffer K p) [p + 16] := by
  refine .quiet_bind dxCtxNode_quiet fun node => ?_
  refine .quiet_bind (orElse_quiet _ node) fun n => ?_
  refine (vmwCmdResCheck_leaves _ _ (p + 16)).bind_quiet fun res => ?_
  refine (rd_quiet _).bind fun slot => (rd_quiet _).bind fun type => ?_
  refine (rd_quiet _).bind fun offset => (rd_quiet _).bind fun size => ?_
  refine (keeps_require _ trivial).bind fun _ => ?_
  exact dxBinding_quiet n fun staged c =>
    ⟨staged, c, res, .cb, shaderSlot type, slot, [offset, size]⟩

theorem vmwCmdDxSetIndexBuffer_leaves : Leaves q (vmwCmdDxSetIndexBuffer K p) [p + 8] := by
  refine .quiet_bind dxCtxNode_quiet fun node => ?_
  refine .quiet_bind (orElse_quiet _ node) fun n => ?_
  refine (vmwCmdResCheck_leaves _ _ (p + 8)).bind_quiet fun res => ?_
  refine (rd_quiet _).bind fun format => (rd_quiet _).bind fun offset => ?_
  exact dxBinding_quiet n fun staged c => ⟨staged, c, res, .ib, 0, 0, [offset, format]⟩

theorem vmwViewAdd_quiet (man ctx : ℕ) (srf : Option ℕ) (viewType : ViewType)
    (userKey cmdSize : ℕ) :
    Keeps Quiet anyStop (vmwViewAdd K man ctx srf viewType userKey cmdSize) := by
  refine (indexed_quiet _).bind fun size => ?_
  refine (keeps_require _ trivial).bind fun _ => ?_
  refine (keeps_require _ trivial).bind fun _ => ?_
  refine (call_quiet K _).bind fun _ => ?_
  exact (deref_quiet srf).bind fun s => call_quiet K _

theorem vmwCmdDxViewDefine_leaves : Leaves q (vmwCmdDxViewDefine K p) [p + 12] := by
  refine .quiet_bind dxCtxNode_quiet fun node => ?_
  refine .quiet_bind (orElse_quiet _ node) fun n => ?_
  refine .quiet_bind (rd_quiet _) fun id => ?_
  refine .quiet_bind (keeps_require _ trivial) fun _ => ?_
  refine (vmwCmdResCheck_leaves _ _ (p + 12)).bind_quiet fun srf => ?_
  refine (ctxOf_quiet n).bind fun ctx => ?_
  refine (indexed_quiet _).bind fun i => ?_
  refine (keeps_inspect _).bind fun cotable => ?_
  refine (rd_quiet _).bind fun definedId => ?_
  refine (vmwCotableNotify_quiet cotable definedId).bind fun _ => ?_
  refine (rd_quiet _).bind fun size => ?_
  refine (keeps_inspect _).bind fun man => ?_
  exact (noteUse_quiet srf srf _).bind fun _ => vmwViewAdd_quiet _ _ _ _ _ _

theorem vmwCmdIntraSurfaceCopy_leaves : Leaves q (vmwCmdIntraSurfaceCopy K p) [p + 8] :=
  .quiet_bind (keeps_require _ trivial) fun _ => sidCheck_leaves (p + 8)

end Leaves

section QuietHandlers

theorem vmwCmdDxDefineQuery_quiet : Keeps Quiet anyStop (vmwCmdDxDefineQuery K p) := by
  refine dxCtxNode_quiet.bind fun node => ?_
  refine (orElse_quiet _ node).bind fun n => ?_
  refine (rd_quiet _).bind fun type => ?_
  refine (keeps_require _ trivial).bind fun _ => ?_
  refine (ctxOf_quiet n).bind fun ctx => ?_
  refine (keeps_inspect _).bind fun cotable => ?_
  exact (rd_quiet _).bind fun id => vmwCotableNotify_quiet cotable id

theorem vmwCmdDxBindQuery_quiet : Keeps Quiet anyStop (vmwCmdDxBindQuery K p) := by
  refine (vmwTranslateMobPtr_quiet _).bind fun bo => ?_
  refine (keeps_update fun _ => ⟨rfl, rfl, rfl, rfl⟩).bind fun _ => ?_
  refine dxCtxNode_quiet.bind fun node => ?_
  refine (derefNode_quiet node).bind fun n => ?_
  exact (ctxOf_quiet n).bind fun ctx => keeps_update fun _ => ⟨rfl, rfl, rfl, rfl⟩

theorem vmwCmdDxSetShaderRes_quiet : Keeps Quiet anyStop (vmwCmdDxSetShaderRes K p) := by
  refine (rd_quiet _).bind fun size => (rd_quiet _).bind fun startView => ?_
  refine (rd_quiet _).bind fun type => ?_
  exact (keeps_require _ trivial).bind fun _ => vmwViewBindingsAdd_quiet _ _ _ _ _ _

theorem vmwCmdDxSetShader_quiet : Keeps Quiet anyStop (vmwCmdDxSetShader K p) := by
  refine dxCtxNode_quiet.bind fun node => ?_
  refine (orElse_quiet _ node).bind fun n => ?_
  refine (rd_quiet _).bind fun shaderId => (rd_quiet _).bind fun type => ?_
  refine (keeps_require _ trivial).bind fun _ => ?_
  refine (keeps_quiet (dxShader_still shaderId)).bind fun res => ?_
  exact dxBinding_quiet n fun staged c => ⟨staged, c, res, .dxShader, shaderSlot type, 0, []⟩

theorem vmwCmdDxSetRendertargets_quiet : Keeps Quiet anyStop (vmwCmdDxSetRendertargets K p) := by
  refine (rd_quiet _).bind fun size => ?_
  refine (keeps_require _ trivial).bind fun _ => ?_
  exact (vmwViewBindingsAdd_quiet _ _ _ _ _ _).bind fun _ => vmwViewBindingsAdd_quiet _ _ _ _ _ _

theorem viewIdCheck_quiet (viewType : ViewType) (a : ℤ) :
    Keeps Quiet anyStop (viewIdCheck K viewType a) := by
  refine (rd_quiet a).bind fun id => ?_
  exact (keeps_quiet (vmwViewIdValAdd_still viewType id)).bind fun _ => keeps_pure _

theorem vmwCmdDxSoDefine_quiet : Keeps Quiet anyStop (vmwCmdDxSoDefine K p) := by
  refine dxCtxNode_quiet.bind fun node => ?_
  refine (orElse_quiet _ node).bind fun n => ?_
  refine (rd_quiet _).bind fun id => ?_
  refine (ctxOf_quiet n).bind fun ctx => ?_
  refine (indexed_quiet _).bind fun i => ?_
  refine (keeps_inspect _).bind fun cotable => ?_
  exact (rd_quiet _).bind fun definedId => vmwCotableNotify_quiet cotable definedId

theorem vmwCmdDxCidCheck_quiet : Keeps Quiet anyStop (vmwCmdDxCidCheck : Check σ Unit) :=
  dxCtxNode_quiet.bind fun node => (orElse_quiet _ node).bind fun _ => keeps_pure _

theorem vmwCmdDxDefineShader_quiet : Keeps Quiet anyStop (vmwCmdDxDefineShader K p) := by
  refine dxCtxNode_quiet.bind fun node => ?_
  refine (orElse_quiet _ node).bind fun n => ?_
  refine (ctxOf_quiet n).bind fun ctx => ?_
  refine (keeps_inspect _).bind fun cotable => ?_
  refine (rd_quiet _).bind fun shaderId => (rd_quiet _).bind fun type => ?_
  refine (vmwCotableNotify_quiet cotable shaderId).bind fun _ => ?_
  exact (keeps_inspect _).bind fun man => call_quiet K _

theorem vmwCmdDxDestroyShader_quiet : Keeps Quiet anyStop (vmwCmdDxDestroyShader K p) := by
  refine dxCtxNode_quiet.bind fun node => ?_
  refine (orElse_quiet _ node).bind fun n => ?_
  exact (keeps_inspect _).bind fun man => (rd_quiet _).bind fun _ => call_quiet K _

end QuietHandlers

section StateDependent

theorem rd_ok {a : ℤ} {v : ℕ} : (rd a : Check σ ℕ) s = (.ok v, t) ↔ word s.mem a = v ∧ s = t :=
  inspect_ok

theorem orElse_ok {e : Errno} {o : Option α} {a : α} :
    (orElse e o : Check σ α) s = (.ok a, t) ↔ o = some a ∧ s = t := by
  cases o with
  | none => simp [orElse, fail]
  | some b => simp [orElse]

theorem vmwCmdDxViewRemove_ok (h : vmwCmdDxViewRemove K p s = (.ok (), t)) :
    (removesView K p s = false ∧ Quiet s t) ∨
    (removesView K p s = true ∧ ∃ u v, Quiet s u ∧
      vmwResourceRelocationAdd K (some v) p .condNop u = (.ok (), t)) := by
  obtain ⟨id, _, h₁, h⟩ := bind_ok.1 h
  obtain ⟨rfl, rfl⟩ := rd_ok.1 h₁
  obtain ⟨node, _, h₂, h⟩ := bind_ok.1 h
  obtain ⟨-, rfl⟩ := inspect_ok.1 h₂
  obtain ⟨n, _, h₃, h⟩ := bind_ok.1 h
  obtain ⟨-, rfl⟩ := orElse_ok.1 h₃
  obtain ⟨man, _, h₄, h⟩ := bind_ok.1 h
  obtain ⟨rfl, rfl⟩ := inspect_ok.1 h₄
  obtain ⟨viewId, _, h₅, h⟩ := bind_ok.1 h
  obtain ⟨rfl, rfl⟩ := rd_ok.1 h₅
  obtain ⟨view, u, hview, h⟩ := bind_ok.1 h
  have hremove : Keeps Quiet anyStop
      (vmwViewRemove K s.man (word s.mem (p + 8)) (vmwViewCmdToType (word s.mem p))) :=
    (keeps_require _ trivial).bind fun _ => call_quiet K _
  have hu := hremove.ok hview
  cases view with
  | none =>
    obtain ⟨-, rfl⟩ := pure_ok.1 h
    exact .inl ⟨by simp only [removesView, hview], hu⟩
  | some v => exact .inr ⟨by simp only [removesView, hview], u, v, hu, h⟩

theorem vmwCmdDxViewRemove_trail (h : vmwCmdDxViewRemove K p s = (.ok (), t)) :
    Trail (headerSites K p s .dxViewRemove) s t [] := by
  unfold headerSites
  rcases vmwCmdDxViewRemove_ok h with ⟨hview, hst⟩ | ⟨hview, u, v, hu, h⟩
  · rw [hview]
    exact hst.trail _
  · rw [hview]
    exact hu.then (vmwResourceRelocationAdd_leaves _ p (by decide) _ _ _ h)

theorem repeatFrom_trail {f : ℕ → Check σ Unit} (mem : Memory) (g : ℕ → List ℤ)
    (hstep : ∀ {i s t}, s.mem = mem → f i s = (.ok (), t) → Trail q s t (g i)) {n : ℕ}
    (hs : s.mem = mem) (h : repeatFrom f 0 n s = (.ok (), t)) :
    Trail q s t ((List.range' 0 n).flatMap g) := by
  refine repeatFrom_collects (fun s t l => s.mem = mem → Trail q s t l) g ?_ ?_ ?_ n h hs
  · intro s _
    exact Quiet.trail ⟨rfl, rfl, rfl, rfl⟩ q
  · intro s t u a b hst htu hm
    exact (hst hm).trans (htu ((hst hm).mem.trans hm))
  · intro i s t hf hm
    exact hstep hm hf

theorem vmwCmdDraw_trail (h : vmwCmdDraw K p s = (.ok (), t)) :
    Trail q s t ([p + 8] ++ drawIds s.mem p) := by
  obtain ⟨_, s₁, h₁, h⟩ := bind_ok.1 h
  have h₁ := vmwCmdCidCheck_leaves (q := q) _ _ _ h₁
  obtain ⟨size, _, h₂, h⟩ := bind_ok.1 h
  obtain ⟨-, rfl⟩ := rd_ok.1 h₂
  obtain ⟨decls, _, h₃, h⟩ := bind_ok.1 h
  obtain ⟨hdecls, rfl⟩ := rd_ok.1 h₃
  obtain ⟨-, h⟩ := require_bind_ok.1 h
  obtain ⟨_, s₂, h₅, h⟩ := bind_ok.1 h
  have h₅ := repeatFrom_trail (q := q) s₁.mem (fun i => [p + 20 + 36 * (i : ℤ) + 16])
    (fun _ hf => sidCheck_leaves _ _ _ _ hf) rfl h₅
  obtain ⟨ranges, _, h₆, h⟩ := bind_ok.1 h
  obtain ⟨hranges, rfl⟩ := rd_ok.1 h₆
  obtain ⟨-, h⟩ := require_bind_ok.1 h
  have h := repeatFrom_trail (q := q) s₂.mem (fun i => [p + 20 + 36 * (decls : ℤ) + 28 * (i : ℤ) + 8])
    (fun _ hf => sidCheck_leaves _ _ _ _ hf) rfl h
  rw [h₅.mem] at hranges
  rw [h₁.mem] at hdecls hranges
  unfold drawIds
  rw [hdecls, hranges]
  exact h₁.trans (h₅.trans h)

theorem texStateCheck_trail {ctx : Option ℕ} {cur : ℤ}
    (h : texStateCheck K ctx cur s = (.ok (), t)) : Trail q s t (texStateId s.mem cur) := by
  obtain ⟨name, _, h₁, h⟩ := bind_ok.1 h
  obtain ⟨rfl, rfl⟩ := rd_ok.1 h₁
  unfold texStateId
  by_cases hname : word s.mem (cur + 4) = svga3dTsBindTexture
  · rw [if_pos hname] at h ⊢
    refine Leaves.quiet_bind (rd_quiet _) (fun stage => ?_) _ _ _ h
    refine .quiet_bind (keeps_require _ trivial) fun _ => ?_
    refine (vmwCmdResCheck_leaves _ _ (cur + 8)).bind_quiet fun res => ?_
    split
    · exact nodeBinding_quiet ctx fun staged c => ⟨staged, c, res, .tex, 0, stage, []⟩
    · exact keeps_pure _
  · rw [if_neg hname] at h ⊢
    exact leaves_quiet (keeps_pure _) _ _ _ h

theorem vmwCmdTexState_trail (h : vmwCmdTexState K p s = (.ok (), t)) :
    Trail q s t (idFields K p s .texState) := by
  obtain ⟨size, _, h₁, h⟩ := bind_ok.1 h
  obtain ⟨rfl, rfl⟩ := rd_ok.1 h₁
  obtain ⟨ctx, s₁, h₂, h⟩ := bind_ok.1 h
  have h₂ := vmwCmdResCheck_leaves (q := q) _ _ _ _ _ _ h₂
  refine h₂.trans (repeatFrom_trail s.mem _ (fun {i u v} hm hf => ?_) h₂.mem h)
  have := texStateCheck_trail (q := q) hf
  rwa [hm] at this

theorem vmwCmdSetShader_trail (h : vmwCmdSetShader K p s = (.ok (), t)) :
    Trail q s t (idFields K p s .setShader) := by
  obtain ⟨type, _, h₁, h⟩ := bind_ok.1 h
  obtain ⟨rfl, rfl⟩ := rd_ok.1 h₁
  obtain ⟨-, h⟩ := require_bind_ok.1 h
  obtain ⟨ctx, s₁, hctx, h⟩ := bind_ok.1 h
  have h₃ := vmwCmdResCheck_leaves (q := q) _ _ _ _ _ _ hctx
  change Trail q s t (if K.hasMob && compatMissed K p s then [p + 8, p + 16] else [p + 8])
  split at h
  case isFalse hmob =>
    rw [if_neg (by simp [hmob])]
    exact h₃.quiet ((keeps_pure (F := anyStop) _).ok h)
  case isTrue hmob =>
    obtain ⟨shid, _, h₄, h⟩ := bind_ok.1 h
    obtain ⟨rfl, rfl⟩ := rd_ok.1 h₄
    obtain ⟨compat, s₂, hcompat, h⟩ := bind_ok.1 h
    have h₅ := (keeps_quiet (compatShader_still _ _ _ fun _ => trivial)).ok hcompat
    rw [h₃.mem] at hcompat
    have hmissed : compatMissed K p s = compat.isNone := by
      unfold compatMissed
      rw [hctx]
      change (match compatShader K ctx (word s.mem (p + 16)) (word s.mem (p + 12)) s₁ with
        | (.ok none, _) => true
        | _ => false) = _
      rw [hcompat]
      cases compat <;> rfl
    obtain ⟨res, s₃, h₆, h⟩ := bind_ok.1 h
    have hbind : Quiet s₃ t := (nodeBinding_quiet ctx fun staged c =>
      ⟨staged, c, res, .shader, shaderSlot (word s.mem (p + 12)), 0, []⟩).ok h
    rw [hmissed, hmob]
    cases compat with
    | some r =>
      have h₆ : Quiet s₂ s₃ := (keeps_pure (F := anyStop) _).ok h₆
      exact ((h₃.quiet h₅).quiet h₆).quiet hbind
    | none =>
      have h₆ : Trail q s₂ s₃ [p + 16] := vmwCmdResCheck_leaves _ _ _ _ _ _ h₆
      exact ((h₃.quiet h₅).trans h₆).quiet hbind

theorem vertexBufferCheck_leaves (node startBuffer i : ℕ) :
    Leaves q (vertexBufferCheck K p node startBuffer i) [p + 12 + 12 * i] := by
  refine (vmwCmdResCheck_leaves _ _ _).bind_quiet fun res => ?_
  refine (rd_quiet _).bind fun stride => (rd_quiet _).bind fun offset => ?_
  exact dxBinding_quiet node fun staged c =>
    ⟨staged, c, res, .vb, 0, addU32 i startBuffer, [offset, stride]⟩

theorem soTargetCheck_leaves (node i : ℕ) :
    Leaves q (soTargetCheck K p node i) [p + 12 + 12 * i] := by
  refine (vmwCmdResCheck_leaves _ _ _).bind_quiet fun res => ?_
  refine (rd_quiet _).bind fun offset => (rd_quiet _).bind fun size => ?_
  exact dxBinding_quiet node fun staged c => ⟨staged, c, res, .so, 0, i, [offset, size]⟩

theorem elements_trail {f : ℕ → Check σ Unit} {s₁ s₂ : SwContext σ} (h₁ : Quiet s s₁)
    (h₂ : Quiet s₁ s₂) (hf : ∀ i, Leaves q (f i) [p + 12 + 12 * (i : ℤ)])
    (h : repeatFrom f 0 (numElements (word s₂.mem (p + 4))).toNat s₂ = (.ok (), t)) :
    Trail q s t (elementIds s.mem p) := by
  have hloop := repeatFrom_trail (q := q) s₂.mem (fun i => [p + 12 + 12 * (i : ℤ)])
    (fun _ hok => hf _ _ _ _ hok) rfl h
  rw [h₂.mem, h₁.mem] at hloop
  exact h₁.then (h₂.then hloop)

theorem vmwCmdDxSetVertexBuffers_trail (h : vmwCmdDxSetVertexBuffers K p s = (.ok (), t)) :
    Trail q s t (elementIds s.mem p) := by
  obtain ⟨node, s₁, h₁, h⟩ := bind_ok.1 h
  have h₁ := dxCtxNode_quiet.ok h₁
  obtain ⟨n, s₂, h₂, h⟩ := bind_ok.1 h
  have h₂ := (orElse_quiet _ _).ok h₂
  obtain ⟨size, _, h₃, h⟩ := bind_ok.1 h
  obtain ⟨hsize, rfl⟩ := rd_ok.1 h₃
  obtain ⟨startBuffer, _, h₄, h⟩ := bind_ok.1 h
  obtain ⟨-, rfl⟩ := rd_ok.1 h₄
  obtain ⟨-, h⟩ := require_bind_ok.1 h
  subst hsize
  exact elements_trail h₁ h₂ (vertexBufferCheck_leaves n startBuffer) h

theorem vmwCmdDxSetSoTargets_trail (h : vmwCmdDxSetSoTargets K p s = (.ok (), t)) :
    Trail q s t (elementIds s.mem p) := by
  obtain ⟨node, s₁, h₁, h⟩ := bind_ok.1 h
  have h₁ := dxCtxNode_quiet.ok h₁
  obtain ⟨n, s₂, h₂, h⟩ := bind_ok.1 h
  have h₂ := (orElse_quiet _ _).ok h₂
  obtain ⟨size, _, h₃, h⟩ := bind_ok.1 h
  obtain ⟨hsize, rfl⟩ := rd_ok.1 h₃
  obtain ⟨-, h⟩ := require_bind_ok.1 h
  subst hsize
  exact elements_trail h₁ h₂ (soTargetCheck_leaves n) h

theorem vmwCmdDxBindShader_trail (h : vmwCmdDxBindShader K p s = (.ok (), t)) :
    Trail q s t (idFields K p s .dxBindShader) := by
  obtain ⟨cid, _, h₁, h⟩ := bind_ok.1 h
  obtain ⟨rfl, rfl⟩ := rd_ok.1 h₁
  change Trail q s t (if word s.mem (p + 8) ≠ svga3dInvalidId then [p + 8] else [])
  obtain ⟨ctx, s₁, h₂, h⟩ := bind_ok.1 h
  have hrest : Quiet s₁ t := by
    refine Keeps.ok (F := anyStop) ?_ h
    refine (rd_quiet _).bind fun shid => ?_
    refine (deref_quiet ctx).bind fun c => ?_
    refine (call_quiet K _).bind fun res => ?_
    refine (keeps_quiet (vmwExecbufResNoctxValAdd_still (K := K) res)).bind fun _ => ?_
    exact (rd_quiet _).bind fun offset => vmwCmdResSwitchBackup_quiet _ _ _
  split_ifs at h₂ ⊢ with hcid
  · exact (vmwCmdResCheck_leaves _ _ _ _ _ _ h₂).quiet hrest
  · have hctx : Keeps Quiet anyStop (dxContext : Check σ (Option ℕ)) := by
      refine dxCtxNode_quiet.bind fun node => ?_
      refine (orElse_quiet _ node).bind fun n => ?_
      exact (ctxOf_quiet n).bind fun ctx => keeps_pure _
    exact ((hctx.ok h₂).trail q).quiet hrest

end StateDependent

section Writers

/-- A handler writes only its header id and, for a DMA, the maximum offset in the suffix;
    the id stays one of the 3D protocol unless the suffix of an empty DMA lies on it. -/
structure Frame (p : ℤ) (s t : SwContext σ) : Prop where
  bytes : ∀ b, t.mem b ≠ s.mem b → p ≤ b ∧ b < p + 4 ∨
    12 ≤ word s.mem (p + 4) ∧ p + word s.mem (p + 4) ≤ b ∧ b < p + word s.mem (p + 4) + 4
  id : (word s.mem p = 1044 → word s.mem (p + 4) ≠ 0) → svgaCmdMax ≤ word s.mem p →
    svgaCmdMax ≤ word t.mem p

theorem frame_of_eq (h : t.mem = s.mem) : Frame p s t := by
  refine ⟨fun b hb => absurd (congrFun h b) hb, fun _ hid => ?_⟩
  rwa [h]

theorem frame_of_header {v : ℕ} (hv : svgaCmdMax ≤ v) (hlt : v < 2 ^ 32)
    (h : t.mem = store s.mem p v) : Frame p s t := by
  refine ⟨fun b hb => ?_, fun _ _ => ?_⟩
  · by_contra hout
    refine hb ?_
    rw [h]
    exact store_outside (by omega)
  · rw [h, word_store hlt]
    exact hv

theorem gbRewrite_eq (id : ℕ) (words : List ℤ) :
    gbRewrite p id words s = (.ok (), { s with mem := store s.mem p id }) := by
  have hwords : ∀ (l : List ℤ) (u : SwContext σ), forEach (fun a => do
      let v ← rd a
      wr a v) l u = (.ok (), u) := by
    intro l
    induction l with
    | nil => exact fun u => rfl
    | cons a l ih =>
      intro u
      refine bind_ok.2 ⟨(), u, bind_ok.2 ⟨word u.mem a, u, rfl, ?_⟩, ih u⟩
      change (Except.ok (), { u with mem := store u.mem a (word u.mem a) }) = _
      rw [store_word]
  exact bind_ok.2 ⟨(), _, rfl, hwords words _⟩

theorem gbRewrite_marks {m : Check σ Unit} {id : ℕ} {words ids : List ℤ} (hid : svgaCmdMax ≤ id)
    (hlt : id < 2 ^ 32) (hm : Leaves q m ids)
    (h : (gbRewrite p id words >>= fun _ => m) s = (.ok (), t)) : Marks q s t ids ∧ Frame p s t := by
  obtain ⟨_, u, hu, h⟩ := bind_ok.1 h
  rw [gbRewrite_eq] at hu
  obtain ⟨-, rfl⟩ := Prod.mk.injEq .. ▸ hu
  have htrail := hm _ _ _ h
  exact ⟨htrail.marks, frame_of_header hid hlt htrail.mem⟩

theorem marks_frame {ids : List ℤ} (h : Trail q s t ids) : Marks q s t ids ∧ Frame p s t :=
  ⟨h.marks, frame_of_eq h.mem⟩

theorem vmwCmdBeginQuery_marks (h : vmwCmdBeginQuery K p s = (.ok (), t)) :
    Marks q s t [p + 8] ∧ Frame p s t := by
  unfold vmwCmdBeginQuery at h
  split at h
  · exact gbRewrite_marks (by decide) (by decide) (cidCheck_leaves _) h
  · exact marks_frame (cidCheck_leaves _ _ _ _ h)

theorem vmwCmdEndQuery_marks (h : vmwCmdEndQuery K p s = (.ok (), t)) :
    Marks q s t [p + 8] ∧ Frame p s t := by
  unfold vmwCmdEndQuery at h
  split at h
  · exact gbRewrite_marks (by decide) (by decide) vmwCmdEndGbQuery_leaves h
  · refine marks_frame (Leaves.bind_quiet (vmwCmdResCheck_leaves _ _ (p + 8)) (fun ctx => ?_) _ _ _ h)
    exact (vmwTranslateGuestPtr_quiet _).bind fun bo => vmwQueryBoSwitchPrepare_quiet ctx bo

theorem vmwCmdWaitQuery_marks (h : vmwCmdWaitQuery K p s = (.ok (), t)) :
    Marks q s t [p + 8] ∧ Frame p s t := by
  unfold vmwCmdWaitQuery at h
  split at h
  · exact gbRewrite_marks (by decide) (by decide) vmwCmdWaitGbQuery_leaves h
  · refine marks_frame (Leaves.bind_quiet vmwCmdCidCheck_leaves (fun _ => ?_) _ _ _ h)
    exact (vmwTranslateGuestPtr_quiet _).bind fun _ => keeps_pure _

theorem vmwCmdSetShaderConst_marks (h : vmwCmdSetShaderConst K p s = (.ok (), t)) :
    Marks q s t [p + 8] ∧ Frame p s t := by
  obtain ⟨_, u, hu, h⟩ := bind_ok.1 h
  have htrail := cidCheck_leaves (q := q) _ _ _ _ hu
  split at h
  · have h := update_ok.1 h
    subst h
    refine ⟨htrail.marks,
      frame_of_header (v := svga3dCmdSetGbShaderconstsInline) (by decide) (by decide) ?_⟩
    rw [htrail.mem]
  · obtain ⟨-, rfl⟩ := pure_ok.1 h
    exact marks_frame htrail

/-- The size of an accepted DMA: the suffix of a shorter command would lie on the header,
    whose bytes are not those of a suffix. -/
theorem dma_size {m : Memory} (hid : word m p = 1044)
    (hs : word m (p + 8 + word m (p + 4) - 12) = 12) :
    word m (p + 4) = 0 ∨ 12 ≤ word m (p + 4) := by
  obtain ⟨g, hg⟩ : ∃ g : ℤ → ℕ, ∀ i, g i = (m (p + i)).toNat := ⟨_, fun _ => rfl⟩
  have hlt : ∀ i, g i < 256 := fun i => hg i ▸ (m (p + i)).toNat_lt
  have hword : ∀ i, word m (p + i) =
      g i + 2 ^ 8 * g (i + 1) + 2 ^ 16 * g (i + 2) + 2 ^ 24 * g (i + 3) := by
    intro i
    rw [hg, hg, hg, hg, ← add_assoc p, ← add_assoc p, ← add_assoc p]
    rfl
  have hid' := hword 0
  have hsize := hword 4
  rw [add_zero, hid] at hid'
  generalize word m (p + 4) = n at hs hsize ⊢
  rw [show p + 8 + (n : ℤ) - 12 = p + ((n : ℤ) - 4) by ring, hword] at hs
  by_contra hcon
  have hn : 0 < n ∧ n < 12 := by omega
  obtain ⟨hpos, hn⟩ := hn
  have h₀ := hlt 0
  have h₁ := hlt 1
  have h₅ := hlt 5
  have h₆ := hlt 6
  have h₇ := hlt 7
  interval_cases n <;> norm_num at hs hsize hid' <;> omega

theorem frame_of_suffix {v : ℕ} (hid : word s.mem p = 1044)
    (hs : word s.mem (p + 8 + word s.mem (p + 4) - 12) = 12)
    (h : t.mem = s.mem ∨ t.mem = store s.mem (p + 8 + word s.mem (p + 4) - 12 + 4) v) :
    Frame p s t := by
  rcases h with h | h
  · exact frame_of_eq h
  · have hsize := dma_size hid hs
    refine ⟨fun b hb => ?_, fun hne hmax => ?_⟩
    · by_contra hout
      refine hb ?_
      rw [h]
      exact store_outside (by omega)
    · have := hne hid
      rw [h, word_store_outside (by omega)]
      exact hmax

theorem dmaGuest_ok {bo : ℕ} (h : dmaGuest K p s = (.ok bo, t)) :
    word s.mem (p + 8 + word s.mem (p + 4) - 12) = 12 ∧ ∃ u v, Quiet s u ∧ (t = u ∨
      t = { u with mem := store u.mem (p + 8 + word s.mem (p + 4) - 12 + 4) v }) := by
  obtain ⟨size, _, h₁, h⟩ := bind_ok.1 h
  obtain ⟨rfl, rfl⟩ := rd_ok.1 h₁
  obtain ⟨suffixSize, _, h₂, h⟩ := bind_ok.1 h
  obtain ⟨hsuffix, rfl⟩ := rd_ok.1 h₂
  obtain ⟨htwelve, h⟩ := require_bind_ok.1 h
  obtain ⟨bo, u, h₃, h⟩ := bind_ok.1 h
  have h₃ := (vmwTranslateGuestPtr_quiet _).ok h₃
  obtain ⟨offset, _, h₄, h⟩ := bind_ok.1 h
  obtain ⟨-, rfl⟩ := rd_ok.1 h₄
  obtain ⟨-, h⟩ := require_bind_ok.1 h
  obtain ⟨maximum, _, h₅, h⟩ := bind_ok.1 h
  obtain ⟨-, rfl⟩ := rd_ok.1 h₅
  obtain ⟨_, v, hwrite, h⟩ := bind_ok.1 h
  obtain ⟨-, rfl⟩ := pure_ok.1 h
  refine ⟨hsuffix.trans (of_decide_eq_true htwelve), u,
    pageSize * K.numPages bo % 2 ^ 32 - offset, h₃, ?_⟩
  unfold runIf at hwrite
  split at hwrite
  · exact .inr (update_ok.1 hwrite).symm
  · exact .inl (pure_ok.1 hwrite).2.symm

theorem vmwCmdDma_marks (hid : word s.mem p = 1044) (h : vmwCmdDma K p s = (.ok (), t)) :
    Marks q s t [p + 20] ∧ Frame p s t := by
  obtain ⟨bo, s₂, hguest, h⟩ := bind_ok.1 h
  obtain ⟨hsuffix, s₁, v, h₁, hs₂⟩ := dmaGuest_ok hguest
  have hrest : Trail q s₂ t [p + 20] := by
    refine Leaves.bind_quiet (vmwCmdResCheck_leaves _ _ (p + 20)) (fun named => ?_) _ _ _ h
    refine (keeps_inspect _).bind fun srf => ?_
    refine (noteUse_quiet named srf _).bind fun _ => ?_
    exact (deref_quiet srf).bind fun r => keeps_update fun _ => ⟨rfl, rfl, rfl, rfl⟩
  refine ⟨?_, frame_of_suffix (v := v) hid hsuffix ?_⟩
  · obtain ⟨reads, lost, rels, hreads, hids, hlost, hrels, hrec⟩ := hrest.marks
    refine ⟨reads, lost, rels, ?_, hids, ?_, ?_, hrec⟩
    · rw [hreads, ← h₁.idReads]
      rcases hs₂ with rfl | rfl <;> rfl
    · rw [hlost, ← h₁.unrecorded]
      rcases hs₂ with rfl | rfl <;> rfl
    · rw [hrels, ← h₁.rels]
      rcases hs₂ with rfl | rfl <;> rfl
  · rw [hrest.mem]
    rcases hs₂ with rfl | rfl
    · exact .inl h₁.mem
    · exact .inr (by simp only [h₁.mem])

end Writers

theorem run_marks {func : Handler} (hid : func = .dma → word s.mem p = 1044)
    (h : func.run K p s = (.ok (), t)) :
    Marks (headerSites K p s func) s t (idFields K p s func) ∧ Frame p s t := by
  cases func with
  | invalid => exact absurd h stop_ok
  | ok => exact marks_frame (leaves_quiet (keeps_pure _) _ _ _ h)
  | cidCheck => exact marks_frame (vmwCmdCidCheck_leaves _ _ _ h)
  | setRenderTargetCheck => exact marks_frame (vmwCmdSetRenderTargetCheck_leaves _ _ _ h)
  | surfaceCopyCheck => exact marks_frame (sidPairCheck_leaves _ _ _ _ _ h)
  | bufferCopyCheck => exact marks_frame (sidPairCheck_leaves _ _ _ _ _ h)
  | predCopyCheck => exact marks_frame (sidPairCheck_leaves _ _ _ _ _ h)
  | stretchBltCheck => exact marks_frame (sidPairCheck_leaves _ _ _ _ _ h)
  | bltSurfScreenCheck => exact marks_frame (sidCheck_leaves _ _ _ _ h)
  | presentCheck => exact marks_frame (sidCheck_leaves _ _ _ _ h)
  | dxDefineQuery => exact marks_frame (leaves_quiet vmwCmdDxDefineQuery_quiet _ _ _ h)
  | dxBindQuery => exact marks_frame (leaves_quiet vmwCmdDxBindQuery_quiet _ _ _ h)
  | beginGbQuery => exact marks_frame (cidCheck_leaves _ _ _ _ h)
  | beginQuery => exact vmwCmdBeginQuery_marks h
  | endGbQuery => exact marks_frame (vmwCmdEndGbQuery_leaves _ _ _ h)
  | endQuery => exact vmwCmdEndQuery_marks h
  | waitGbQuery => exact marks_frame (vmwCmdWaitGbQuery_leaves _ _ _ h)
  | waitQuery => exact vmwCmdWaitQuery_marks h
  | dma => exact vmwCmdDma_marks (hid rfl) h
  | draw => exact marks_frame (vmwCmdDraw_trail h)
  | texState => exact marks_frame (vmwCmdTexState_trail h)
  | bindGbSurface => exact marks_frame (vmwCmdSwitchBackup_leaves _ _ _ _ _ _ _ _ h)
  | updateGbImage => exact marks_frame (sidCheck_leaves _ _ _ _ h)
  | updateGbSurface => exact marks_frame (sidCheck_leaves _ _ _ _ h)
  | readbackGbImage => exact marks_frame (sidCheck_leaves _ _ _ _ h)
  | readbackGbSurface => exact marks_frame (sidCheck_leaves _ _ _ _ h)
  | invalidateGbImage => exact marks_frame (sidCheck_leaves _ _ _ _ h)
  | invalidateGbSurface => exact marks_frame (sidCheck_leaves _ _ _ _ h)
  | shaderDefine => exact marks_frame (vmwCmdShaderDefine_leaves _ _ _ h)
  | shaderDestroy => exact marks_frame (vmwCmdShaderDestroy_leaves _ _ _ h)
  | setShader => exact marks_frame (vmwCmdSetShader_trail h)
  | setShaderConst => exact vmwCmdSetShaderConst_marks h
  | bindGbShader => exact marks_frame (vmwCmdBindGbShader_leaves _ _ _ h)
  | dxSetSingleConstantBuffer =>
    exact marks_frame (vmwCmdDxSetSingleConstantBuffer_leaves _ _ _ h)
  | dxSetShaderRes => exact marks_frame (leaves_quiet vmwCmdDxSetShaderRes_quiet _ _ _ h)
  | dxSetShader => exact marks_frame (leaves_quiet vmwCmdDxSetShader_quiet _ _ _ h)
  | dxSetVertexBuffers => exact marks_frame (vmwCmdDxSetVertexBuffers_trail h)
  | dxSetIndexBuffer => exact marks_frame (vmwCmdDxSetIndexBuffer_leaves _ _ _ h)
  | dxSetRendertargets => exact marks_frame (leaves_quiet vmwCmdDxSetRendertargets_quiet _ _ _ h)
  | dxClearRendertargetView => exact marks_frame (leaves_quiet (viewIdCheck_quiet _ _) _ _ _ h)
  | dxClearDepthstencilView => exact marks_frame (leaves_quiet (viewIdCheck_quiet _ _) _ _ _ h)
  | dxViewDefine => exact marks_frame (vmwCmdDxViewDefine_leaves _ _ _ h)
  | dxSetSoTargets => exact marks_frame (vmwCmdDxSetSoTargets_trail h)
  | dxSoDefine => exact marks_frame (leaves_quiet vmwCmdDxSoDefine_quiet _ _ _ h)
  | dxCheckSubresource => exact marks_frame (sidCheck_leaves _ _ _ _ h)
  | dxCidCheck => exact marks_frame (leaves_quiet vmwCmdDxCidCheck_quiet _ _ _ h)
  | dxViewRemove => exact marks_frame (vmwCmdDxViewRemove_trail h)
  | dxDefineShader => exact marks_frame (leaves_quiet vmwCmdDxDefineShader_quiet _ _ _ h)
  | dxDestroyShader => exact marks_frame (leaves_quiet vmwCmdDxDestroyShader_quiet _ _ _ h)
  | dxBindShader => exact marks_frame (vmwCmdDxBindShader_trail h)
  | dxGenmips => exact marks_frame (leaves_quiet (viewIdCheck_quiet _ _) _ _ _ h)
  | dxTransferFromBuffer => exact marks_frame (sidPairCheck_leaves _ _ _ _ _ h)
  | intraSurfaceCopy => exact marks_frame (vmwCmdIntraSurfaceCopy_leaves _ _ _ h)

end Vmwgfx.ExecbufFields

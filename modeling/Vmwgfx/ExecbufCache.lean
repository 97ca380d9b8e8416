import Vmwgfx.ExecbufCacheRuns
import Vmwgfx.ExecbufFraming

set_option autoImplicit false

/-!
# Batches with the resource cache and without it

Every command ends in the same way with the cache and without it, and leaves the same lists,
but for the flags that a backup switch takes from `first_usage`, which the cache keeps from
being cleared.
-/
namespace Vmwgfx.ExecbufCacheMode
open Word32 ByteStore HashTable FailingState LabelledRuns PairedRuns ExecbufState ExecbufHandlers
  ExecbufVerifier ExecbufListing ExecbufFraming ExecbufCacheRuns
open Validation hiding vmwValidationAddBo vmwValidationFindBoDup BoNode

section Helpers
variable {hash : ℕ → ℕ} {σ : Type} {A : Allocator} {S : Supply σ} {K : Kernel σ}
  {table : Converter → ℕ → Except Errno ℕ} {B : Prop} {pins : ℕ → ℕ → Prop}

theorem noctx_paired (res : ℕ) : Paired (Related hash K table B pins)
    (vmwExecbufResNoctxValAdd (listed hash A S K) true res)
    (vmwExecbufResNoctxValAdd (listed hash A S K) false res) :=
  matched_paired (f := fun _ => pure ()) (g := fun _ => pure ()) (fun _ _ => paired_pure ())
    (fun _ => rfl) res

theorem viewRes_paired (view : ℕ) : Paired (Related hash K table B pins)
    (vmwViewResValAdd (listed hash A S K) true view)
    (vmwViewResValAdd (listed hash A S K) false view) :=
  (noctx_paired _).bind fun _ => noctx_paired _

theorem viewId_paired (viewType : ViewType) (id : ℕ) : Paired (Related hash K table B pins)
    (vmwViewIdValAdd (listed hash A S K) true viewType id)
    (vmwViewIdValAdd (listed hash A S K) false viewType id) := by
  refine apart_dxCtxNode.paired.bind fun o => (apart_orElse _ o).paired.bind fun _ => ?_
  refine (apart_field fun _ _ => rfl).paired.bind fun man => (apart_call _).paired.bind fun view => ?_
  exact (viewRes_paired view).bind fun _ => paired_pure _

theorem cotableValAdd_paired (ctx i : ℕ) : Paired (Related hash K table B pins)
    (cotableValAdd (listed hash A S K) true ctx i)
    (cotableValAdd (listed hash A S K) false ctx i) := by
  refine (apart_contextCotable ctx i).paired.bind fun r => ?_
  cases r
  · exact paired_pure _
  · exact (apart_deref _).paired.bind fun res => noctx_paired res

theorem boundValAdd_paired (res : ℕ) : Paired (Related hash K table B pins)
    (boundValAdd (listed hash A S K) true res) (boundValAdd (listed hash A S K) false res) := by
  unfold boundValAdd
  split
  · exact viewRes_paired res
  · exact noctx_paired res

theorem retOf_paired {α : Type} {m n : Check (Lists hash σ) α}
    (h : Paired (Related hash K table B pins) m n) :
    Paired (Related hash K table B pins) (retOf m) (retOf n) := by
  intro s t hst
  have hp := h s t hst
  constructor
  · rw [retOf_eq, retOf_eq, hp.result]
  · rw [retOf_eq, retOf_eq]
    exact hp.state

theorem contextResAdd_paired (ctx : ℕ) : Paired (Related hash K table B pins)
    (vmwResourceContextResAdd (listed hash A S K) true ctx)
    (vmwResourceContextResAdd (listed hash A S K) false ctx) := by
  refine ((Paired.repeatFrom (cotableValAdd_paired ctx) _ _).runIf _).bind fun _ => ?_
  refine (apart_field fun _ _ => rfl).paired.bind fun l => ?_
  refine (retOf_paired (Paired.forEach boundValAdd_paired l)).bind fun ret => ?_
  refine (apart_field fun _ _ => rfl).paired.bind fun mob => ?_
  cases mob
  · exact (apart_ofRet ret).paired
  · exact (apart_validationAddBo _ _ _).paired

theorem ctxFirstSetup_paired (res node : ℕ) : Paired (Related hash K table B pins)
    (vmwCmdCtxFirstSetup (listed hash A S K) true res node)
    (vmwCmdCtxFirstSetup (listed hash A S K) false res node) := by
  refine (contextResAdd_paired res).bind fun _ => ?_
  refine Blind.paired fun s T => ?_
  have hrest : Apart (do
      let shared ← sharedStaged (listed hash A S K) s.stagedBindings
      let staged ← nodeStaged (listed hash A S K) s.stagedBindingsInuse shared
      update fun s => { s with
        info := Function.update s.info node ⟨res, K.contextBindingState res, staged⟩
        ctxList := s.ctxList ++ [node] }) :=
    (apart_sharedStaged _).bind fun shared => (apart_nodeStaged _ _).bind fun staged =>
      blind_update fun _ _ => rfl
  exact hrest s T

theorem noref_paired (res : ℕ) : Paired (Related hash K table B pins)
    (vmwExecbufResNorefValAdd (listed hash A S K) true res)
    (vmwExecbufResNorefValAdd (listed hash A S K) false res) := by
  refine matched_paired
    (f := fun node => runIf (vmwExecbufResSize (listed hash A S K) (K.resType res) ≠ 0 && node.2)
      (vmwCmdCtxFirstSetup (listed hash A S K) true res node.1))
    (g := fun node => runIf (vmwExecbufResSize (listed hash A S K) (K.resType res) ≠ 0 && node.2)
      (vmwCmdCtxFirstSetup (listed hash A S K) false res node.1)) (fun node _ => ?_) (fun x => ?_) res
  · exact (ctxFirstSetup_paired res node.1).runIf _
  · unfold runIf
    rw [Bool.and_false]
    rfl

end Helpers

section Checks
variable {hash : ℕ → ℕ} {σ : Type} {A : Allocator} {S : Supply σ} {K : Kernel σ}
  {table : Converter → ℕ → Except Errno ℕ} {B : Prop} {pins : ℕ → ℕ → Prop}
  {s t : SwContext (Lists hash σ)}

/-- The handle of a resource is written down where the cache has the resource. -/
def nameHandle (t : ResType) (id res : ℕ) : Check (Lists hash σ) Unit := update fun s =>
  if (s.resCache t).holds res then
    { s with resCache := Function.update s.resCache t ((s.resCache t).named id) }
  else s

theorem nameHandle_paired (hst : Related hash K table B pins s t) {ty : ResType} {id res : ℕ}
    (hid : table (converterOf ty) id = .ok res) :
    PairedAt (Related hash K table B pins) (nameHandle ty id res) (nameHandle ty id res) s t := by
  have hholds : (t.resCache ty).holds res = (s.resCache ty).holds res :=
    (hst.inside.entries ty).holds res
  refine ⟨rfl, ?_⟩
  unfold nameHandle update
  dsimp only
  rw [hholds]
  split
  next hr => exact hst.put (hst.inside.named hr hid)
  next => exact hst

theorem nameHandle_right (hst : Related hash K table B pins s t) (ty : ResType) (id res : ℕ) :
    PairedAt (Related hash K table B pins) (pure ()) (nameHandle ty id res) s t := by
  refine ⟨rfl, ?_⟩
  unfold nameHandle update
  dsimp only
  split
  · have hput := hst.put (hst.inside.named_right (t := ty) id)
    rw [(tables hash σ).put_get] at hput
    exact hput
  · exact hst

theorem info_paired (res : Option ℕ) : Paired (Related hash K table B pins)
    (vmwExecbufInfoFromRes (listed hash A S K) res)
    (vmwExecbufInfoFromRes (listed hash A S K) res) := by
  refine (apart_noteUse _ _ _).paired.bind fun _ => (apart_deref res).paired.bind fun r => ?_
  refine paired_inspect fun s t hst => ?_
  have hentry : SameEntry (s.resCache (K.resType r)) (t.resCache (K.resType r)) :=
    hst.inside.entries _
  change (if (s.resCache (K.resType r)).holds r = true then _ else _) =
    (if (t.resCache (K.resType r)).holds r = true then (t.resCache (K.resType r)).priv else _)
  rw [hentry.holds, hentry.priv]
  rfl

theorem tieContext_paired (handle : ℕ) : Paired (Related hash K table B pins)
    (vmwExecbufTieContext (listed hash A S K) true handle)
    (vmwExecbufTieContext (listed hash A S K) false handle) := by
  unfold vmwExecbufTieContext
  split
  · exact paired_pure _
  · refine (apart_call _).paired.bind fun _ => (apart_call _).paired.bind fun res => ?_
    refine (noref_paired res).bind fun _ => (info_paired (some res)).bind fun node => ?_
    exact (blind_update (P := tables hash σ) fun _ _ => rfl).paired

theorem nameHandle_same (ty : ResType) (id res : ℕ) (s : SwContext (Lists hash σ)) :
    (∀ u, SameEntry (s.resCache u) ((nameHandle ty id res s).2.resCache u)) ∧
      (nameHandle ty id res s).2.rest = s.rest := by
  unfold nameHandle update
  dsimp only
  split
  · refine ⟨fun u => ?_, rfl⟩
    dsimp only
    by_cases hu : u = ty
    · rw [hu, Function.update_self]
      exact ⟨rfl, rfl, rfl⟩
    · rw [Function.update_of_ne hu]
      exact SameEntry.refl _
  · exact ⟨fun u => SameEntry.refl _, rfl⟩

variable (hK : FixedTable K table)
include hK

theorem call_lookup {c : Converter} {id res : ℕ} {u : SwContext (Lists hash σ)}
    (h : call (onRest (K.userResourceLookup c id)) s = (.ok res, u)) :
    table c id = .ok res ∧ u = s := by
  simp only [call, onRest, hK.lookup] at h
  rcases htable : table c id with e | r
  · rw [htable] at h
    cases h
  · rw [htable] at h
    cases h
    exact ⟨rfl, rfl⟩

theorem lookup_run (cached : Bool) {ty : ResType} {id res : ℕ}
    (hid : table (converterOf ty) id = .ok res) :
    vmwCmdResLookup (listed hash A S K) cached ty (converterOf ty) id s =
      (vmwExecbufResNorefValAdd (listed hash A S K) cached res >>= fun _ =>
        nameHandle ty id res >>= fun _ => pure (some res) : Check _ _) s := by
  have hpreload : call (onRest (K.validationPreloadRes (vmwExecbufResSize K ty))) s = (.ok (), s) := by
    simp only [call, onRest, hK.preload]
  have hlookup : call (onRest (K.userResourceLookup (converterOf ty) id)) s = (.ok res, s) := by
    simp only [call, onRest, hK.lookup, hid]
  exact (bind_of_ok hpreload).trans (bind_of_ok hlookup)

theorem resLookup_paired (ty : ResType) (id : ℕ) : Paired (Related hash K table B pins)
    (vmwCmdResLookup (listed hash A S K) true ty (converterOf ty) id)
    (vmwCmdResLookup (listed hash A S K) false ty (converterOf ty) id) := by
  refine (apart_call _).paired.bind fun _ => ?_
  intro s t hst
  refine ((apart_call _).paired s t hst).bind fun res u v hu _ huv => ?_
  refine (noref_paired res u v huv).bind fun _ u' v' _ _ huv' => ?_
  refine (nameHandle_paired huv' (call_lookup hK hu).1).bind fun _ _ _ _ _ h => ⟨rfl, h⟩

theorem resLookup_again (hst : Related hash K table B pins s t) {ty : ResType} {id res : ℕ}
    (hr : (s.resCache ty).holds res = true) (hid : table (converterOf ty) id = .ok res) :
    PairedAt (Related hash K table B pins) (pure (some res))
      (vmwCmdResLookup (listed hash A S K) false ty (converterOf ty) id) s t := by
  have htype := (hst.inside.held ty res hr).1
  have hadd : PairedAt (Related hash K table B pins) (pure ())
      (vmwExecbufResNorefValAdd (listed hash A S K) false res) s t :=
    nodeAdd_again hst (htype ▸ hr) fun x => by
      unfold runIf
      rw [Bool.and_false]
      rfl
  have hrest : PairedAt (Related hash K table B pins)
      (pure () >>= fun _ => pure () >>= fun _ => pure (some res))
      (vmwExecbufResNorefValAdd (listed hash A S K) false res >>= fun _ =>
        nameHandle ty id res >>= fun _ => pure (some res)) s t :=
    hadd.bind fun _ u v _ _ huv => (nameHandle_right huv ty id res).bind fun _ _ _ _ _ h => ⟨rfl, h⟩
  exact hrest.congr rfl (lookup_run hK false hid)

theorem resCheck_paired (ty : ResType) (a : ℤ) : Paired (Related hash K table B pins)
    (vmwCmdResCheck (listed hash A S K) true ty (converterOf ty) a)
    (vmwCmdResCheck (listed hash A S K) false ty (converterOf ty) a) := by
  refine (apart_rd a).paired.bind fun id => ?_
  refine (blind_update (P := tables hash σ) fun _ _ => rfl).paired.bind fun _ => ?_
  split
  · split
    · exact (apart_fail _).paired
    · exact paired_pure _
  · intro s t hst
    have hres : PairedAt (Related hash K table B pins)
        (if (s.resCache ty).validHandle && decide (id = (s.resCache ty).handle) then
            pure (s.resCache ty).res
          else vmwCmdResLookup (listed hash A S K) true ty (converterOf ty) id)
        (vmwCmdResLookup (listed hash A S K) false ty (converterOf ty) id) s t := by
      split
      next hhit =>
        obtain ⟨hvalid, hid⟩ := Bool.and_eq_true_iff.1 hhit
        obtain ⟨r, hr, hhandle⟩ := hst.inside.handles ty hvalid
        have heq : id = (s.resCache ty).handle := of_decide_eq_true hid
        have hres : (s.resCache ty).res = some r := (holds_iff.1 hr).2
        rw [hres]
        refine resLookup_again hK hst hr ?_
        rw [heq]
        exact hhandle
      next => exact resLookup_paired hK ty id s t hst
    refine (hres.bind fun res u v _ _ huv => ?_).congr rfl rfl
    refine ((apart_relocationAdd res a .normal).retOf.paired.bind fun ret => ?_) u v huv
    exact (blind_update (P := tables hash σ) fun _ _ => rfl).paired.bind fun _ => paired_pure _

theorem sidCheck_paired (a : ℤ) : Paired (Related hash K table B pins)
    (sidCheck (listed hash A S K) true a) (sidCheck (listed hash A S K) false a) :=
  (resCheck_paired hK .surface a).bind fun _ => paired_pure _

theorem cidCheck_paired (a : ℤ) : Paired (Related hash K table B pins)
    (cidCheck (listed hash A S K) true a) (cidCheck (listed hash A S K) false a) :=
  (resCheck_paired hK .context a).bind fun _ => paired_pure _

theorem sidPairCheck_paired (a b : ℤ) : Paired (Related hash K table B pins)
    (sidPairCheck (listed hash A S K) true a b) (sidPairCheck (listed hash A S K) false a b) :=
  (sidCheck_paired hK a).bind fun _ => sidCheck_paired hK b

end Checks

section Handlers
variable {hash : ℕ → ℕ} {σ : Type} {A : Allocator} {S : Supply σ} {K : Kernel σ}
  {table : Converter → ℕ → Except Errno ℕ} {B : Prop} {pins : ℕ → ℕ → Prop}

theorem queryPrepare_paired (ctx : Option ℕ) (bo : ℕ) : Paired (Related hash K table B pins)
    (vmwQueryBoSwitchPrepare (listed hash A S K) ctx bo)
    (vmwQueryBoSwitchPrepare (listed hash A S K) ctx bo) := by
  intro s t hst
  have hentry : SameEntry (s.resCache .context) (t.resCache .context) := hst.inside.entries _
  have hcur : t.curQueryBo = s.curQueryBo := by
    rw [hst.outside]
    rfl
  have hbody : Paired (Related hash K table B pins) (do
        require (s.resCache .context).valid .bugOn
        noteUse ctx (s.resCache .context).res true
        update fun s => { s with lastQueryCtx := (s.resCache .context).res }
        runIf (s.curQueryBo ≠ some bo) do
          require (K.numPages bo ≤ 4) (.errno .einval)
          queryBoBarrier (listed hash A S K) s.curQueryBo
          update fun s => { s with curQueryBo := some bo }
          vmwValidationAddBo (listed hash A S K) K.dummyQueryBo K.hasMob false) (do
        require (s.resCache .context).valid .bugOn
        noteUse ctx (s.resCache .context).res true
        update fun s => { s with lastQueryCtx := (s.resCache .context).res }
        runIf (s.curQueryBo ≠ some bo) do
          require (K.numPages bo ≤ 4) (.errno .einval)
          queryBoBarrier (listed hash A S K) s.curQueryBo
          update fun s => { s with curQueryBo := some bo }
          vmwValidationAddBo (listed hash A S K) K.dummyQueryBo K.hasMob false) := by
    refine (paired_require _ _).bind fun _ => (apart_noteUse _ _ _).paired.bind fun _ => ?_
    refine Paired.bind (paired_update fun u v huv => ⟨?_, huv.inside⟩) fun _ => ?_
    · have hres : (v.resCache .context).res = (u.resCache .context).res := (huv.inside.entries _).res
      rw [hres]
      conv_lhs => rw [huv.outside]
      rfl
    · refine Paired.runIf ((paired_require _ _).bind fun _ => Paired.bind ?_ fun _ => ?_) _
      · cases s.curQueryBo
        · exact paired_pure _
        · refine (blind_update (P := tables hash σ) fun _ _ => rfl).paired.bind fun _ => ?_
          exact (apart_validationAddBo _ _ _).paired
      · refine (blind_update (P := tables hash σ) fun _ _ => rfl).paired.bind fun _ => ?_
        exact (apart_validationAddBo _ _ _).paired
  refine (hbody s t hst).congr rfl ?_
  rw [← hentry.valid, ← hentry.res, ← hcur]
  rfl

theorem viewOf_paired (viewType : ViewType) (id : ℕ) : Paired (Related hash K table B pins)
    (viewOf (listed hash A S K) true viewType id)
    (viewOf (listed hash A S K) false viewType id) := by
  unfold viewOf
  split
  · exact paired_pure _
  · exact (viewId_paired viewType id).bind fun view => paired_pure _

theorem viewBindings_paired (viewType : ViewType) (bt : BindingSlots.BindingType) (slot : ℕ) (ids : ℤ)
    (n first : ℕ) : Paired (Related hash K table B pins)
      (vmwViewBindingsAdd (listed hash A S K) true viewType bt slot ids n first)
      (vmwViewBindingsAdd (listed hash A S K) false viewType bt slot ids n first) := by
  refine apart_dxCtxNode.paired.bind fun o => (apart_orElse _ o).paired.bind fun node => ?_
  refine Paired.repeatFrom (fun i => ?_) _ _
  refine (apart_rd _).paired.bind fun id => (viewOf_paired viewType id).bind fun view => ?_
  exact (apart_bindingAdd node (fun staged c => ⟨staged, c, view, bt, slot, addU32 first i, []⟩)
    (apart_ctxOf node)).paired

theorem viewIdCheck_paired (viewType : ViewType) (a : ℤ) : Paired (Related hash K table B pins)
    (viewIdCheck (listed hash A S K) true viewType a)
    (viewIdCheck (listed hash A S K) false viewType a) :=
  (apart_rd a).paired.bind fun id => (viewId_paired viewType id).bind fun _ => paired_pure _

theorem infoBinding_paired (ctx : Option ℕ) (b : ℕ → ℕ → Binding) :
    Paired (Related hash K table B pins) (do
      let node ← orElse .einval (← vmwExecbufInfoFromRes (listed hash A S K) ctx)
      let staged ← stagedOf node
      let c ← deref ctx
      vmwBindingAdd (b staged c)) (do
      let node ← orElse .einval (← vmwExecbufInfoFromRes (listed hash A S K) ctx)
      let staged ← stagedOf node
      let c ← deref ctx
      vmwBindingAdd (b staged c)) := by
  refine (info_paired ctx).bind fun o => (apart_orElse _ o).paired.bind fun node => ?_
  exact (apart_bindingAdd node b (apart_deref ctx)).paired

variable (hK : FixedTable K table)
include hK

theorem setRenderTarget_paired (p : ℤ) : Paired (Related hash K table B pins)
    (vmwCmdSetRenderTargetCheck (listed hash A S K) true p)
    (vmwCmdSetRenderTargetCheck (listed hash A S K) false p) := by
  refine (apart_rd _).paired.bind fun type => (paired_require _ _).bind fun _ => ?_
  refine (resCheck_paired hK .context _).bind fun ctx => (resCheck_paired hK .surface _).bind fun res => ?_
  split
  · exact infoBinding_paired ctx fun staged c => ⟨staged, c, res, .rt, 0, type, []⟩
  · exact paired_pure _

theorem beginQuery_paired (p : ℤ) : Paired (Related hash K table B pins)
    (vmwCmdBeginQuery (listed hash A S K) true p) (vmwCmdBeginQuery (listed hash A S K) false p) := by
  unfold vmwCmdBeginQuery
  split
  · exact (apart_gbRewrite _ _ _).paired.bind fun _ => cidCheck_paired hK _
  · exact cidCheck_paired hK _

theorem endGbQuery_paired (p : ℤ) : Paired (Related hash K table B pins)
    (vmwCmdEndGbQuery (listed hash A S K) true p) (vmwCmdEndGbQuery (listed hash A S K) false p) :=
  (resCheck_paired hK .context _).bind fun ctx => (apart_translatePtr _ _).paired.bind fun bo =>
    queryPrepare_paired ctx bo

theorem endQuery_paired (p : ℤ) : Paired (Related hash K table B pins)
    (vmwCmdEndQuery (listed hash A S K) true p) (vmwCmdEndQuery (listed hash A S K) false p) := by
  unfold vmwCmdEndQuery
  split
  · exact (apart_gbRewrite _ _ _).paired.bind fun _ => endGbQuery_paired hK p
  · exact (resCheck_paired hK .context _).bind fun ctx => (apart_translatePtr _ _).paired.bind fun bo =>
      queryPrepare_paired ctx bo

theorem waitGbQuery_paired (p : ℤ) : Paired (Related hash K table B pins)
    (vmwCmdWaitGbQuery (listed hash A S K) true p) (vmwCmdWaitGbQuery (listed hash A S K) false p) :=
  (cidCheck_paired hK _).bind fun _ => (apart_translatePtr _ _).paired.bind fun _ => paired_pure _

theorem waitQuery_paired (p : ℤ) : Paired (Related hash K table B pins)
    (vmwCmdWaitQuery (listed hash A S K) true p) (vmwCmdWaitQuery (listed hash A S K) false p) := by
  unfold vmwCmdWaitQuery
  split
  · exact (apart_gbRewrite _ _ _).paired.bind fun _ => waitGbQuery_paired hK p
  · exact (cidCheck_paired hK _).bind fun _ => (apart_translatePtr _ _).paired.bind fun _ =>
      paired_pure _

theorem dma_paired (p : ℤ) : Paired (Related hash K table B pins)
    (vmwCmdDma (listed hash A S K) true p) (vmwCmdDma (listed hash A S K) false p) := by
  refine (apart_dmaGuest p).paired.bind fun bo => (resCheck_paired hK .surface _).bind fun named => ?_
  refine (paired_inspect fun s t hst => (hst.inside.entries .surface).res.symm).bind fun srf => ?_
  refine (apart_noteUse _ _ _).paired.bind fun _ => (apart_deref srf).paired.bind fun srf => ?_
  exact (apart_act _).paired

theorem draw_paired (p : ℤ) : Paired (Related hash K table B pins)
    (vmwCmdDraw (listed hash A S K) true p) (vmwCmdDraw (listed hash A S K) false p) := by
  refine (cidCheck_paired hK _).bind fun _ => (apart_rd _).paired.bind fun size => ?_
  refine (apart_rd _).paired.bind fun decls => (paired_require _ _).bind fun _ => ?_
  refine (Paired.repeatFrom (fun i => sidCheck_paired hK _) _ _).bind fun _ => ?_
  refine (apart_rd _).paired.bind fun ranges => (paired_require _ _).bind fun _ => ?_
  exact Paired.repeatFrom (fun i => sidCheck_paired hK _) _ _

theorem texStateCheck_paired (ctx : Option ℕ) (cur : ℤ) : Paired (Related hash K table B pins)
    (texStateCheck (listed hash A S K) true ctx cur)
    (texStateCheck (listed hash A S K) false ctx cur) := by
  refine (apart_rd _).paired.bind fun name => ?_
  split
  · refine (apart_rd _).paired.bind fun stage => (paired_require _ _).bind fun _ => ?_
    refine (resCheck_paired hK .surface _).bind fun res => ?_
    split
    · exact infoBinding_paired ctx fun staged c => ⟨staged, c, res, .tex, 0, stage, []⟩
    · exact paired_pure _
  · exact paired_pure _

theorem texState_paired (p : ℤ) : Paired (Related hash K table B pins)
    (vmwCmdTexState (listed hash A S K) true p) (vmwCmdTexState (listed hash A S K) false p) := by
  refine (apart_rd _).paired.bind fun size => (resCheck_paired hK .context _).bind fun ctx => ?_
  exact Paired.repeatFrom (fun i => texStateCheck_paired hK ctx _) _ _

theorem shaderDefine_paired (p : ℤ) : Paired (Related hash K table B pins)
    (vmwCmdShaderDefine (listed hash A S K) true p)
    (vmwCmdShaderDefine (listed hash A S K) false p) := by
  refine (resCheck_paired hK .context _).bind fun ctx => ?_
  split
  · refine (apart_rd _).paired.bind fun size => (apart_rd _).paired.bind fun shid => ?_
    refine (apart_rd _).paired.bind fun type => (apart_deref ctx).paired.bind fun c => ?_
    exact (apart_call _).paired.bind fun _ => (apart_relocationAdd _ _ _).paired
  · exact paired_pure _

theorem shaderDestroy_paired (p : ℤ) : Paired (Related hash K table B pins)
    (vmwCmdShaderDestroy (listed hash A S K) true p)
    (vmwCmdShaderDestroy (listed hash A S K) false p) := by
  refine (resCheck_paired hK .context _).bind fun ctx => ?_
  split
  · refine (apart_rd _).paired.bind fun shid => (apart_rd _).paired.bind fun type => ?_
    refine (apart_deref ctx).paired.bind fun c => (apart_call _).paired.bind fun _ => ?_
    exact (apart_relocationAdd _ _ _).paired
  · exact paired_pure _

omit hK in
theorem compatShader_paired (ctx : Option ℕ) (shid type : ℕ) : Paired (Related hash K table B pins)
    (compatShader (listed hash A S K) true ctx shid type)
    (compatShader (listed hash A S K) false ctx shid type) := by
  unfold compatShader
  split
  · exact paired_pure _
  · refine (apart_deref ctx).paired.bind fun c => (apart_call _).retOf.paired.bind fun ret => ?_
    cases ret
    · exact paired_pure _
    · exact (noctx_paired _).bind fun _ => paired_pure _

theorem setShader_paired (p : ℤ) : Paired (Related hash K table B pins)
    (vmwCmdSetShader (listed hash A S K) true p) (vmwCmdSetShader (listed hash A S K) false p) := by
  refine (apart_rd _).paired.bind fun type => (paired_require _ _).bind fun _ => ?_
  refine (resCheck_paired hK .context _).bind fun ctx => ?_
  split
  · refine (apart_rd _).paired.bind fun shid => (compatShader_paired ctx shid type).bind fun compat => ?_
    refine Paired.bind ?_ fun res =>
      infoBinding_paired ctx fun staged c => ⟨staged, c, res, .shader, shaderSlot type, 0, []⟩
    split
    · exact paired_pure _
    · exact resCheck_paired hK .shader _
  · exact paired_pure _

theorem setShaderConst_paired (p : ℤ) : Paired (Related hash K table B pins)
    (vmwCmdSetShaderConst (listed hash A S K) true p)
    (vmwCmdSetShaderConst (listed hash A S K) false p) := by
  refine (cidCheck_paired hK _).bind fun _ => ?_
  split
  · exact (apart_wr _ _).paired
  · exact paired_pure _

theorem dxSetSingleConstantBuffer_paired (p : ℤ) : Paired (Related hash K table B pins)
    (vmwCmdDxSetSingleConstantBuffer (listed hash A S K) true p)
    (vmwCmdDxSetSingleConstantBuffer (listed hash A S K) false p) := by
  refine apart_dxCtxNode.paired.bind fun o => (apart_orElse _ o).paired.bind fun node => ?_
  refine (resCheck_paired hK .surface _).bind fun res => (apart_rd _).paired.bind fun slot => ?_
  refine (apart_rd _).paired.bind fun type => (apart_rd _).paired.bind fun offset => ?_
  refine (apart_rd _).paired.bind fun size => (paired_require _ _).bind fun _ => ?_
  exact (apart_bindingAdd node (fun staged c =>
    ⟨staged, c, res, .cb, shaderSlot type, slot, [offset, size]⟩) (apart_ctxOf node)).paired

omit hK in
theorem dxSetShaderRes_paired (p : ℤ) : Paired (Related hash K table B pins)
    (vmwCmdDxSetShaderRes (listed hash A S K) true p)
    (vmwCmdDxSetShaderRes (listed hash A S K) false p) := by
  refine (apart_rd _).paired.bind fun size => (apart_rd _).paired.bind fun start => ?_
  refine (apart_rd _).paired.bind fun type => (paired_require _ _).bind fun _ => ?_
  exact viewBindings_paired _ _ _ _ _ _

omit hK in
theorem dxSetShader_paired (p : ℤ) : Paired (Related hash K table B pins)
    (vmwCmdDxSetShader (listed hash A S K) true p)
    (vmwCmdDxSetShader (listed hash A S K) false p) := by
  refine apart_dxCtxNode.paired.bind fun o => (apart_orElse _ o).paired.bind fun node => ?_
  refine (apart_rd _).paired.bind fun id => (apart_rd _).paired.bind fun type => ?_
  refine (paired_require _ _).bind fun _ => Paired.bind ?_ fun res =>
    (apart_bindingAdd node (fun staged c => ⟨staged, c, res, .dxShader, shaderSlot type, 0, []⟩)
      (apart_ctxOf node)).paired
  unfold dxShader
  split
  · exact paired_pure _
  · refine (apart_field fun _ _ => rfl).paired.bind fun man => (apart_call _).paired.bind fun res => ?_
    exact (noctx_paired res).bind fun _ => paired_pure _

theorem vertexBufferCheck_paired (p : ℤ) (node startBuffer i : ℕ) :
    Paired (Related hash K table B pins)
      (vertexBufferCheck (listed hash A S K) true p node startBuffer i)
      (vertexBufferCheck (listed hash A S K) false p node startBuffer i) := by
  refine (resCheck_paired hK .surface _).bind fun res => (apart_rd _).paired.bind fun stride => ?_
  refine (apart_rd _).paired.bind fun offset => ?_
  exact (apart_bindingAdd node (fun staged c =>
    ⟨staged, c, res, .vb, 0, addU32 i startBuffer, [offset, stride]⟩) (apart_ctxOf node)).paired

theorem dxSetVertexBuffers_paired (p : ℤ) : Paired (Related hash K table B pins)
    (vmwCmdDxSetVertexBuffers (listed hash A S K) true p)
    (vmwCmdDxSetVertexBuffers (listed hash A S K) false p) := by
  refine apart_dxCtxNode.paired.bind fun o => (apart_orElse _ o).paired.bind fun node => ?_
  refine (apart_rd _).paired.bind fun size => (apart_rd _).paired.bind fun start => ?_
  refine (paired_require _ _).bind fun _ => ?_
  exact Paired.repeatFrom (vertexBufferCheck_paired hK p node start) _ _

theorem dxSetIndexBuffer_paired (p : ℤ) : Paired (Related hash K table B pins)
    (vmwCmdDxSetIndexBuffer (listed hash A S K) true p)
    (vmwCmdDxSetIndexBuffer (listed hash A S K) false p) := by
  refine apart_dxCtxNode.paired.bind fun o => (apart_orElse _ o).paired.bind fun node => ?_
  refine (resCheck_paired hK .surface _).bind fun res => (apart_rd _).paired.bind fun format => ?_
  refine (apart_rd _).paired.bind fun offset => ?_
  exact (apart_bindingAdd node (fun staged c => ⟨staged, c, res, .ib, 0, 0, [offset, format]⟩)
    (apart_ctxOf node)).paired

omit hK in
theorem dxSetRendertargets_paired (p : ℤ) : Paired (Related hash K table B pins)
    (vmwCmdDxSetRendertargets (listed hash A S K) true p)
    (vmwCmdDxSetRendertargets (listed hash A S K) false p) := by
  refine (apart_rd _).paired.bind fun size => (paired_require _ _).bind fun _ => ?_
  exact (viewBindings_paired _ _ _ _ _ _).bind fun _ => viewBindings_paired _ _ _ _ _ _

theorem dxViewDefine_paired (p : ℤ) : Paired (Related hash K table B pins)
    (vmwCmdDxViewDefine (listed hash A S K) true p)
    (vmwCmdDxViewDefine (listed hash A S K) false p) := by
  refine apart_dxCtxNode.paired.bind fun o => (apart_orElse _ o).paired.bind fun node => ?_
  refine (apart_rd _).paired.bind fun id => (paired_require _ _).bind fun _ => ?_
  refine (resCheck_paired hK .surface _).bind fun srf => (apart_ctxOf node).paired.bind fun ctx => ?_
  refine (apart_indexed _).paired.bind fun i => (apart_contextCotable ctx i).paired.bind fun cotable => ?_
  refine (apart_rd _).paired.bind fun defined => (apart_cotableNotify cotable defined).paired.bind fun _ => ?_
  refine (apart_rd _).paired.bind fun size => (apart_field fun _ _ => rfl).paired.bind fun man => ?_
  exact (apart_noteUse _ _ _).paired.bind fun _ => (apart_viewAdd _ _ _ _ _ _).paired

theorem soTargetCheck_paired (p : ℤ) (node i : ℕ) : Paired (Related hash K table B pins)
    (soTargetCheck (listed hash A S K) true p node i)
    (soTargetCheck (listed hash A S K) false p node i) := by
  refine (resCheck_paired hK .surface _).bind fun res => (apart_rd _).paired.bind fun offset => ?_
  refine (apart_rd _).paired.bind fun size => ?_
  exact (apart_bindingAdd node (fun staged c => ⟨staged, c, res, .so, 0, i, [offset, size]⟩)
    (apart_ctxOf node)).paired

theorem dxSetSoTargets_paired (p : ℤ) : Paired (Related hash K table B pins)
    (vmwCmdDxSetSoTargets (listed hash A S K) true p)
    (vmwCmdDxSetSoTargets (listed hash A S K) false p) := by
  refine apart_dxCtxNode.paired.bind fun o => (apart_orElse _ o).paired.bind fun node => ?_
  refine (apart_rd _).paired.bind fun size => (paired_require _ _).bind fun _ => ?_
  exact Paired.repeatFrom (soTargetCheck_paired hK p node) _ _

theorem dxBoundShader_paired (p : ℤ) : Paired (Related hash K table B pins)
    (dxBoundShader (listed hash A S K) true p) (dxBoundShader (listed hash A S K) false p) := by
  refine (apart_rd _).paired.bind fun cid => Paired.bind ?_ fun ctx => ?_
  · split
    · exact resCheck_paired hK .context _
    · exact apart_dxContext.paired
  · refine (apart_rd _).paired.bind fun shid => (apart_deref ctx).paired.bind fun c => ?_
    exact (apart_call _).paired

end Handlers

section Switches
variable {hash : ℕ → ℕ} {σ : Type} {A : Allocator} {S : Supply σ} {K : Kernel σ}
  {table : Converter → ℕ → Except Errno ℕ} {B : Prop} {pins : ℕ → ℕ → Prop} {X Y : Tables hash}
  {s t : SwContext (Lists hash σ)} {res x : ℕ}

abbrev Ready (hash : ℕ → ℕ) (K : Kernel σ) (table : Converter → ℕ → Except Errno ℕ) (B : Prop)
    (pins : ℕ → ℕ → Prop) (res : ℕ) : SwContext (Lists hash σ) → SwContext (Lists hash σ) → Prop :=
  Beside (tables hash σ) fun X Y => Sim K table B pins X Y ∧ (B → Settled K res X Y)

/-- The match in the cache leaves the flag of a node that was used again only where it is
    stale. -/
theorem noctx_settled (hst : Related hash K table B pins s t)
    (hfresh : B → stale K ((tables hash σ).get s) res = false) :
    PairedAt (Ready hash K table B pins res)
      (vmwExecbufResNoctxValAdd (listed hash A S K) true res)
      (vmwExecbufResNoctxValAdd (listed hash A S K) false res) s t := by
  cases hr : (s.resCache (K.resType res)).holds res with
  | true =>
    obtain ⟨-, x, hpriv, -⟩ := hst.inside.held _ res hr
    have hx : (s.resCache (K.resType res)).priv = some x := hpriv
    have hrun := nodeAdd_again_run (A := A) (S := S) (f := fun _ => pure ()) hst hr hx fun _ => rfl
    have hsettled : B → Settled K res ((tables hash σ).get s)
        (Tables.refreshed K { (tables hash σ).get t with val := t.rest.val.usedAgain x } res x) := by
      intro hB y _ hy
      obtain rfl : x = y := Option.some.inj (hx.symm.trans hy)
      have hstale := hfresh hB
      change ((s.resCache (K.resType res)).holds res && _) = false at hstale
      rw [hr] at hstale
      change Option.any _ (s.resCache (K.resType res)).priv = false at hstale
      rw [hx, Option.any_some, Bool.and_eq_false_iff, Bool.not_eq_false'] at hstale
      refine hstale.symm.imp id fun hfalse => ?_
      change (Function.update t.rest.val.resNode x _ x).firstUsage = _
      rw [Function.update_self]
      exact hfalse.symm
    have hput : Ready hash K table B pins res ((tables hash σ).put ((tables hash σ).get s) s)
        ((tables hash σ).put (Tables.refreshed K
          { (tables hash σ).get t with val := t.rest.val.usedAgain x } res x) t) :=
      hst.put ⟨hst.inside.again hr hx, hsettled⟩
    rw [(tables hash σ).put_get] at hput
    have hpaired : PairedAt (Ready hash K table B pins res) (pure ())
        (nodeAdd A S K res fun _ => pure ()) s t := by
      refine ⟨by rw [hrun]; rfl, ?_⟩
      rw [hrun]
      exact hput
    exact hpaired.congr (noctx_hit hr) rfl
  | false =>
    have hcall := add_paired (A := A) (S := S) res s t hst
    have hready : PairedAt (Ready hash K table B pins res)
        (call (addResource A ⟨K.hasMob, K.resType⟩ S res))
        (call (addResource A ⟨K.hasMob, K.resType⟩ S res)) s t := by
      refine ⟨hcall.result, hcall.state.outside, hcall.state.inside, fun _ x hx => ?_⟩
      rw [call_add] at hx
      change (s.resCache (K.resType res)).holds res = true at hx
      rw [hr] at hx
      cases hx
    refine (hready.bind fun a u v hu hv huv => ?_).congr (noctx_miss hr) rfl
    have hlists : t.rest.val = { s.rest.val with resNode := t.rest.val.resNode } :=
      hst.inside.alike.lists
    have hm : t.rest.val.mergeDups = true := by
      rw [hlists]
      exact hst.inside.mergeDups
    have hh : t.rest.val.hasHt = true := by
      rw [hlists]
      exact hst.inside.hasHt
    obtain ⟨hfound, hfirst⟩ := add_found hst.inside.mergeDups hst.inside.hasHt hu
    have hsettled : Settled K res (Tables.refreshed K ((tables hash σ).get u) res a.1)
        (Tables.refreshed K ((tables hash σ).get v) res a.1) := by
      intro x _ hx
      simp only [Tables.refreshed, Function.update_self, CacheEntry.refreshed, Option.some.injEq] at hx
      rw [← hx]
      exact .inr ((add_found hm hh hv).2.trans hfirst.symm)
    have hput : Ready hash K table B pins res
        ((tables hash σ).put (Tables.refreshed K ((tables hash σ).get u) res a.1) u)
        ((tables hash σ).put (Tables.refreshed K ((tables hash σ).get v) res a.1) v) :=
      huv.put ⟨huv.inside.1.refreshed hfound, fun _ => hsettled⟩
    exact ⟨rfl, hput⟩

theorem Ready.related {u v : SwContext (Lists hash σ)} (h : Ready hash K table B pins res u v) :
    Related hash K table B pins u v := h.mono fun _ _ h => h.1

theorem info_ok {named o : Option ℕ} {u : SwContext (Lists hash σ)}
    (h : vmwExecbufInfoFromRes (listed hash A S K) named s = (.ok o, u)) :
    ∃ r, named = some r ∧ (tables hash σ).get u = (tables hash σ).get s ∧
      o = if (s.resCache (K.resType r)).holds r then (s.resCache (K.resType r)).priv else none := by
  cases named with
  | none => cases h
  | some r =>
    cases h
    exact ⟨r, rfl, rfl, rfl⟩

theorem resSwitchBackup_paired (hst : Related hash K table B pins s t) (named : Option ℕ) (buf : ℤ)
    (offset : ℕ)
    (hset : (vmwCmdResSwitchBackup (listed hash A S K) named buf offset s).1 = .ok () → B →
      ∀ r, named = some r → Settled K r ((tables hash σ).get s) ((tables hash σ).get t)) :
    PairedAt (Related hash K table B pins)
      (vmwCmdResSwitchBackup (listed hash A S K) named buf offset)
      (vmwCmdResSwitchBackup (listed hash A S K) named buf offset) s t := by
  refine (info_paired named s t hst).bind fun o s₁ t₁ hs₁ ht₁ h₁ => ?_
  refine ((apart_orElse .einval o).paired s₁ t₁ h₁).bind fun x s₂ t₂ hs₂ ht₂ h₂ => ?_
  refine ((apart_translatePtr true buf).paired s₂ t₂ h₂).bind fun vbo s₃ t₃ hs₃ ht₃ h₃ => ?_
  have hok : (vmwCmdResSwitchBackup (listed hash A S K) named buf offset s).1 = .ok () := by
    rw [vmwCmdResSwitchBackup, bind_of_ok hs₁, bind_of_ok hs₂]
    exact congrArg Prod.fst (bind_of_ok hs₃)
  obtain ⟨r, hr, hget, ho⟩ := info_ok hs₁
  obtain ⟨-, -, hget', -⟩ := info_ok ht₁
  have hsame : (tables hash σ).get s₃ = (tables hash σ).get s :=
    ((apart_translatePtr true buf).get_of_run hs₃).trans
      (((apart_orElse .einval o).get_of_run hs₂).trans hget)
  have hsame' : (tables hash σ).get t₃ = (tables hash σ).get t :=
    ((apart_translatePtr true buf).get_of_run ht₃).trans
      (((apart_orElse .einval o).get_of_run ht₂).trans hget')
  have hx : o = some x := by
    cases o with
    | none => cases hs₂
    | some y =>
      cases hs₂
      rfl
  refine ⟨rfl, h₃.put (h₃.inside.switched (fun hB => ?_) vbo offset)⟩
  rw [hsame, hsame']
  rw [hx] at ho
  split at ho
  next hholds => exact hset hok hB r hr x hholds ho.symm
  next => cases ho

theorem noref_eq_noctx (hsize : vmwExecbufResSize K (K.resType res) = 0) (cached : Bool) :
    vmwExecbufResNorefValAdd (listed hash A S K) cached res =
      vmwExecbufResNoctxValAdd (listed hash A S K) cached res := by
  have hsize' : vmwExecbufResSize (listed hash A S K) ((listed hash A S K).resType res) = 0 := hsize
  unfold vmwExecbufResNorefValAdd vmwExecbufResNoctxValAdd
  simp only [hsize', ne_eq, not_true_eq_false, decide_false, Bool.false_and, runIf]
  rfl

theorem nameHandle_ready {m : Check (Lists hash σ) Unit} {ty : ResType} {id : ℕ}
    (h : PairedAt (Related hash K table B pins) m (nameHandle ty id res) s t)
    (hm : (∀ u, SameEntry (s.resCache u) ((m s).2.resCache u)) ∧ (m s).2.rest = s.rest)
    (hst : Ready hash K table B pins res s t) :
    PairedAt (Ready hash K table B pins res) m (nameHandle ty id res) s t := by
  refine ⟨h.result, h.state.outside, h.state.inside, fun hB => ?_⟩
  refine (hst.inside.2 hB).congr hm.1 (congrArg Lists.val hm.2) (congrArg Lists.switch hm.2) ?_
  exact congrArg Lists.val (nameHandle_same ty id res t).2

def noted (a : ℤ) (s : SwContext (Lists hash σ)) : SwContext (Lists hash σ) :=
  { s with idReads := s.idReads ++ [⟨a, word s.mem a⟩] }

/-- The last part of `vmw_cmd_res_check`. -/
def relocated (A : Allocator) (S : Supply σ) (K : Kernel σ) (a : ℤ) (res : Option ℕ) :
    Check (Lists hash σ) (Option ℕ) := do
  let ret ← retOf (vmwResourceRelocationAdd (listed hash A S K) res a .normal)
  noteUnrecorded ret a
  pure res

theorem resCheck_on {ty : ResType} {a : ℤ} (hid : word s.mem a ≠ svga3dInvalidId) :
    vmwCmdResCheck (listed hash A S K) true ty (converterOf ty) a s =
      ((if (s.resCache ty).validHandle && decide (word s.mem a = (s.resCache ty).handle) then
          pure (s.resCache ty).res
        else vmwCmdResLookup (listed hash A S K) true ty (converterOf ty) (word s.mem a)) >>=
        relocated A S K a) (noted a s) := by
  change (if word s.mem a = svga3dInvalidId then _ else _ : Check _ _) (noted a s) = _
  rw [if_neg hid]
  rfl

theorem resCheck_off {ty : ResType} {a : ℤ} (hid : word s.mem a ≠ svga3dInvalidId) :
    vmwCmdResCheck (listed hash A S K) false ty (converterOf ty) a s =
      (vmwCmdResLookup (listed hash A S K) false ty (converterOf ty) (word s.mem a) >>=
        relocated A S K a) (noted a s) := by
  change (if word s.mem a = svga3dInvalidId then _ else _ : Check _ _) (noted a s) = _
  rw [if_neg hid]
  rfl

theorem resCheck_ok (hK : FixedTable K table) {ty : ResType} {a : ℤ} {u : SwContext (Lists hash σ)}
    (h : vmwCmdResCheck (listed hash A S K) false ty (converterOf ty) a s = (.ok (some res), u)) :
    word s.mem a ≠ svga3dInvalidId ∧ table (converterOf ty) (word s.mem a) = .ok res := by
  by_cases hid : word s.mem a = svga3dInvalidId
  · change (if word s.mem a = svga3dInvalidId then _ else _ : Check _ _) (noted a s) = _ at h
    rw [if_pos hid] at h
    split at h <;> cases h
  · refine ⟨hid, ?_⟩
    rw [resCheck_off hid] at h
    obtain ⟨named, v, hlookup, htail⟩ := bind_ok.1 h
    obtain ⟨_, _, -, htail⟩ := bind_ok.1 htail
    obtain ⟨_, _, -, htail⟩ := bind_ok.1 htail
    obtain ⟨rfl, -⟩ := pure_ok.1 htail
    obtain ⟨_, w, -, hlookup⟩ := bind_ok.1 hlookup
    obtain ⟨r, _, hr, hlookup⟩ := bind_ok.1 hlookup
    obtain ⟨_, _, -, hlookup⟩ := bind_ok.1 hlookup
    obtain ⟨_, _, -, hlookup⟩ := bind_ok.1 hlookup
    obtain ⟨heq, -⟩ := pure_ok.1 hlookup
    cases heq
    exact (call_lookup hK hr).1

theorem resCheck_settled (hK : FixedTable K table) (hst : Related hash K table B pins s t)
    {ty : ResType} {a : ℤ} (hsize : vmwExecbufResSize K (K.resType res) = 0)
    (hid : word s.mem a ≠ svga3dInvalidId) (hres : table (converterOf ty) (word s.mem a) = .ok res)
    (hfresh : B → stale K ((tables hash σ).get s) res = false) :
    PairedAt (Ready hash K table B pins res)
      (vmwCmdResCheck (listed hash A S K) true ty (converterOf ty) a)
      (vmwCmdResCheck (listed hash A S K) false ty (converterOf ty) a) s t := by
  have hblind : Apart (update (noted a) : Check (Lists hash σ) Unit) := blind_update fun _ _ => rfl
  have hnote : Related hash K table B pins (noted a s) (noted a t) := (hblind.paired s t hst).state
  have hword : word t.mem a = word s.mem a := by
    rw [hst.outside]
    rfl
  have hoff := @resCheck_off hash σ A S K t ty a (hword ▸ hid)
  rw [hword] at hoff
  have hadd := noctx_settled (A := A) (S := S) hnote hfresh
  have hlookup : PairedAt (Ready hash K table B pins res)
      (if (s.resCache ty).validHandle && decide (word s.mem a = (s.resCache ty).handle) then
          pure (s.resCache ty).res
        else vmwCmdResLookup (listed hash A S K) true ty (converterOf ty) (word s.mem a))
      (vmwCmdResLookup (listed hash A S K) false ty (converterOf ty) (word s.mem a))
      (noted a s) (noted a t) := by
    rw [← noref_eq_noctx hsize, ← noref_eq_noctx hsize] at hadd
    split
    next hhit =>
      obtain ⟨hvalid, hhandle⟩ := Bool.and_eq_true_iff.1 hhit
      obtain ⟨r, hr, hfound⟩ := hst.inside.handles ty hvalid
      have htable : table (converterOf ty) (s.resCache ty).handle = .ok r := hfound
      rw [← of_decide_eq_true hhandle, hres] at htable
      cases htable
      have hheld : (s.resCache ty).res = some res := (holds_iff.1 hr).2
      have htype := (hst.inside.held ty res hr).1
      have hsame : vmwExecbufResNorefValAdd (listed hash A S K) true res (noted a s) = (.ok (), noted a s) := by
        rw [noref_eq_noctx hsize]
        exact noctx_hit (htype ▸ hr)
      rw [hheld]
      have hrest : PairedAt (Ready hash K table B pins res)
          (vmwExecbufResNorefValAdd (listed hash A S K) true res >>= fun _ =>
            pure () >>= fun _ => pure (some res))
          (vmwExecbufResNorefValAdd (listed hash A S K) false res >>= fun _ =>
            nameHandle ty (word s.mem a) res >>= fun _ => pure (some res)) (noted a s) (noted a t) :=
        hadd.bind fun _ u v _ _ huv => (nameHandle_ready (nameHandle_right huv.related ty _ res)
          ⟨fun _ => SameEntry.refl _, rfl⟩ huv).bind fun _ _ _ _ _ h => ⟨rfl, h⟩
      refine hrest.congr ?_ (lookup_run hK false hres)
      rw [bind_of_ok hsame]
      rfl
    next =>
      have hrest : PairedAt (Ready hash K table B pins res)
          (vmwExecbufResNorefValAdd (listed hash A S K) true res >>= fun _ =>
            nameHandle ty (word s.mem a) res >>= fun _ => pure (some res))
          (vmwExecbufResNorefValAdd (listed hash A S K) false res >>= fun _ =>
            nameHandle ty (word s.mem a) res >>= fun _ => pure (some res)) (noted a s) (noted a t) :=
        hadd.bind fun _ u v _ _ huv => (nameHandle_ready (nameHandle_paired huv.related hres)
          (nameHandle_same ty _ res u) huv).bind fun _ _ _ _ _ h => ⟨rfl, h⟩
      exact hrest.congr (lookup_run hK true hres) (lookup_run hK false hres)
  have htail (r : Option ℕ) : Apart (relocated A S K a r : Check (Lists hash σ) _) :=
    (apart_relocationAdd r a .normal).retOf.bind fun ret =>
      (blind_update fun _ _ => rfl).bind fun _ => blind_pure _
  have hrest := hlookup.bind fun r u v _ _ huv => (htail r).paired u v huv
  exact hrest.congr (resCheck_on hid) hoff

end Switches
section Commands
variable {hash : ℕ → ℕ} {σ : Type} {A : Allocator} {S : Supply σ} {K : Kernel σ}
  {table : Converter → ℕ → Except Errno ℕ} {B : Prop} {pins : ℕ → ℕ → Prop}
  {s t : SwContext (Lists hash σ)}

/-- A handle names a resource that is stale in the cache. -/
def StaleHandle (K : Kernel σ) (table : Converter → ℕ → Except Errno ℕ) (c : Converter) (a : ℤ)
    (s : SwContext (Lists hash σ)) : Prop :=
  word s.mem a ≠ svga3dInvalidId ∧
    ∃ r, table c (word s.mem a) = .ok r ∧ stale K ((tables hash σ).get s) r = true

/-- The command switches the backup of a resource that is stale in the cache. -/
def StaleSwitch (A : Allocator) (S : Supply σ) (K : Kernel σ)
    (table : Converter → ℕ → Except Errno ℕ) (func : Handler) (p : ℤ)
    (s : SwContext (Lists hash σ)) : Prop :=
  match func with
  | .bindGbSurface => StaleHandle K table .surface (p + 8) s
  | .bindGbShader => StaleHandle K table .shader (p + 8) s
  | .dxBindShader => ∃ r u, dxBoundShader (listed hash A S K) true p s = (.ok r, u) ∧
    stale K ((tables hash σ).get u) r = true
  | _ => False

theorem run_plain (K : Kernel σ) (cached : Bool) (p : ℤ) {h : Handler} (hh : h ∈ plainHandlers) :
    run K cached p h = h.run K p := by
  simp only [plainHandlers, List.mem_cons, List.not_mem_nil, or_false] at hh
  rcases hh with rfl | rfl | rfl | rfl | rfl | rfl | rfl | rfl | rfl <;> rfl

variable (hK : FixedTable K table)
include hK

theorem switchBackup_paired (hst : Related hash K table B pins s t) (ty : ResType) {a : ℤ} (buf : ℤ)
    (offset : ℕ)
    (hty : ∀ handle r, table (converterOf ty) handle = .ok r → vmwExecbufResSize K (K.resType r) = 0)
    (hfresh : (vmwCmdSwitchBackup (listed hash A S K) true ty (converterOf ty) a buf offset s).1 =
      .ok () → B → ¬ StaleHandle K table (converterOf ty) a s) :
    PairedAt (Related hash K table B pins)
      (vmwCmdSwitchBackup (listed hash A S K) true ty (converterOf ty) a buf offset)
      (vmwCmdSwitchBackup (listed hash A S K) false ty (converterOf ty) a buf offset) s t := by
  refine (resCheck_paired hK ty a s t hst).bind fun named u v hu hv huv => ?_
  refine resSwitchBackup_paired huv named buf offset fun hok hB r hr => ?_
  rw [hr] at hu hv
  have hword : word t.mem a = word s.mem a := by
    rw [hst.outside]
    rfl
  obtain ⟨hid, hres⟩ := resCheck_ok hK hv
  rw [hword] at hid hres
  have hrun : (vmwCmdSwitchBackup (listed hash A S K) true ty (converterOf ty) a buf offset s).1 =
      .ok () := by
    rw [vmwCmdSwitchBackup, bind_of_ok hu, ← hr]
    exact hok
  have hclean : stale K ((tables hash σ).get s) r = false := by
    rw [← Bool.not_eq_true]
    exact fun hstale => hfresh hrun hB ⟨hid, r, hres, hstale⟩
  have hsettled := (resCheck_settled (A := A) (S := S) hK hst (hty _ r hres) hid hres
    fun _ => hclean).state
  rw [hu, hv] at hsettled
  exact hsettled.inside.2 hB

theorem dxBindShader_paired (hst : Related hash K table B pins s t) (p : ℤ)
    (hfresh : (vmwCmdDxBindShader (listed hash A S K) true p s).1 = .ok () → B →
      ¬ StaleSwitch A S K table .dxBindShader p s) :
    PairedAt (Related hash K table B pins) (vmwCmdDxBindShader (listed hash A S K) true p)
      (vmwCmdDxBindShader (listed hash A S K) false p) s t := by
  refine (dxBoundShader_paired hK p s t hst).bind fun r u v hu hv huv => ?_
  refine (noctx_paired r u v huv).bind fun _ u₁ v₁ hu₁ hv₁ h₁ => ?_
  refine ((apart_rd (p + 20)).paired u₁ v₁ h₁).bind fun offset u₂ v₂ hu₂ hv₂ h₂ => ?_
  obtain ⟨-, rfl⟩ := inspect_ok.1 hu₂
  obtain ⟨-, rfl⟩ := inspect_ok.1 hv₂
  refine resSwitchBackup_paired h₁ (some r) (p + 16) offset fun hok hB r' hr => ?_
  cases hr
  have hrun : (vmwCmdDxBindShader (listed hash A S K) true p s).1 = .ok () := by
    rw [vmwCmdDxBindShader, bind_of_ok hu, bind_of_ok hu₁, bind_of_ok hu₂]
    exact hok
  have hclean : stale K ((tables hash σ).get u) r = false := by
    rw [← Bool.not_eq_true]
    exact fun hstale => hfresh hrun hB ⟨r, u, hu, hstale⟩
  have hsettled := (noctx_settled (A := A) (S := S) huv fun _ => hclean).state
  rw [hu₁, hv₁] at hsettled
  exact hsettled.inside.2 hB

theorem run_paired (hst : Related hash K table B pins s t) (p : ℤ) (h : Handler)
    (hfresh : (run (listed hash A S K) true p h s).1 = .ok () → B → ¬ StaleSwitch A S K table h p s) :
    PairedAt (Related hash K table B pins) (run (listed hash A S K) true p h)
      (run (listed hash A S K) false p h) s t := by
  have hsurface : ∀ handle r, table .surface handle = .ok r → vmwExecbufResSize K (K.resType r) = 0 := by
    intro handle r hr
    rw [hK.surfaces handle r hr]
    rfl
  have hshader : ∀ handle r, table .shader handle = .ok r → vmwExecbufResSize K (K.resType r) = 0 := by
    intro handle r hr
    rw [hK.shaders handle r hr]
    rfl
  by_cases hplain : h ∈ plainHandlers
  · rw [run_plain _ _ p hplain, run_plain _ _ p hplain]
    exact (apart_handlers p hplain).paired s t hst
  cases h
  case invalid | ok | dxDefineQuery | dxBindQuery | dxSoDefine | dxCidCheck | dxViewRemove
    | dxDefineShader | dxDestroyShader => exact absurd (by decide) hplain
  case cidCheck | beginGbQuery => exact cidCheck_paired hK _ s t hst
  case surfaceCopyCheck | stretchBltCheck | bufferCopyCheck | predCopyCheck | dxTransferFromBuffer =>
    exact sidPairCheck_paired hK _ _ s t hst
  case bltSurfScreenCheck | presentCheck | updateGbImage | updateGbSurface | readbackGbImage
    | readbackGbSurface | invalidateGbImage | invalidateGbSurface | dxCheckSubresource =>
    exact sidCheck_paired hK _ s t hst
  case setRenderTargetCheck => exact setRenderTarget_paired hK p s t hst
  case beginQuery => exact beginQuery_paired hK p s t hst
  case endGbQuery => exact endGbQuery_paired hK p s t hst
  case endQuery => exact endQuery_paired hK p s t hst
  case waitGbQuery => exact waitGbQuery_paired hK p s t hst
  case waitQuery => exact waitQuery_paired hK p s t hst
  case dma => exact dma_paired hK p s t hst
  case draw => exact draw_paired hK p s t hst
  case texState => exact texState_paired hK p s t hst
  case bindGbSurface => exact switchBackup_paired hK hst .surface _ 0 hsurface hfresh
  case shaderDefine => exact shaderDefine_paired hK p s t hst
  case shaderDestroy => exact shaderDestroy_paired hK p s t hst
  case setShader => exact setShader_paired hK p s t hst
  case setShaderConst => exact setShaderConst_paired hK p s t hst
  case bindGbShader =>
    refine ((apart_rd (p + 16)).paired s t hst).bind fun offset u v hu hv huv => ?_
    obtain ⟨rfl, rfl⟩ := inspect_ok.1 hu
    exact switchBackup_paired hK huv .shader _ _ hshader hfresh
  case dxSetSingleConstantBuffer => exact dxSetSingleConstantBuffer_paired hK p s t hst
  case dxSetShaderRes => exact dxSetShaderRes_paired p s t hst
  case dxSetShader => exact dxSetShader_paired p s t hst
  case dxSetVertexBuffers => exact dxSetVertexBuffers_paired hK p s t hst
  case dxSetIndexBuffer => exact dxSetIndexBuffer_paired hK p s t hst
  case dxSetRendertargets => exact dxSetRendertargets_paired p s t hst
  case dxClearRendertargetView | dxClearDepthstencilView | dxGenmips =>
    exact viewIdCheck_paired _ _ s t hst
  case dxViewDefine => exact dxViewDefine_paired hK p s t hst
  case dxSetSoTargets => exact dxSetSoTargets_paired hK p s t hst
  case dxBindShader => exact dxBindShader_paired hK hst p hfresh
  case intraSurfaceCopy =>
    exact ((paired_require _ _).bind fun _ => sidCheck_paired hK _) s t hst

end Commands

section Batch
variable {hash : ℕ → ℕ} {σ : Type} {A : Allocator} {S : Supply σ} {K : Kernel σ}
  {table : Converter → ℕ → Except Errno ℕ} {B : Prop} {pins : ℕ → ℕ → Prop}
  {s t : SwContext (Lists hash σ)}

/-- The command at the cursor does not switch the backup of a stale resource. -/
def CleanSwitch (A : Allocator) (S : Supply σ) (K : Kernel σ)
    (table : Converter → ℕ → Except Errno ℕ) (l : Loop (Lists hash σ)) : Prop :=
  ∀ e, cmdEntry (word l.sw.mem l.buf) = some e → ¬ StaleSwitch A S K table e.func l.buf l.sw

variable (hK : FixedTable K table)
include hK

theorem runEntry_paired (hst : Related hash K table B pins s t) (p : ℤ) (h : Handler)
    (hfresh : (runEntry (listed hash A S K) true h p s).1 = .ok () → B →
      ¬ StaleSwitch A S K table h p s) :
    PairedAt (Related hash K table B pins) (runEntry (listed hash A S K) true h p)
      (runEntry (listed hash A S K) false h p) s t := by
  have hrun := run_paired hK hst p h fun hok => hfresh (by
    have hret : retOf (run (listed hash A S K) true p h) s =
        (.ok (.ok ()), (run (listed hash A S K) true p h s).2) := by rw [retOf_eq, hok]
    rw [runEntry, bind_of_ok hret]
    rfl)
  have hret : PairedAt (Related hash K table B pins) (retOf (run (listed hash A S K) true p h))
      (retOf (run (listed hash A S K) false p h)) s t := by
    constructor
    · rw [retOf_eq, retOf_eq, hrun.result]
    · rw [retOf_eq, retOf_eq]
      exact hrun.state
  refine hret.bind fun r u v _ _ huv => ?_
  cases r
  · exact (apart_fail _).paired u v huv
  · exact paired_pure _ u v huv

theorem cmdCheck_paired (hst : Related hash K table B pins s t) (buf : ℤ) (n : ℕ)
    (hfresh : ∀ k u, vmwCmdCheck (listed hash A S K) true buf n s = (.ok k, u) → B →
      ∀ e, cmdEntry (word s.mem buf) = some e → ¬ StaleSwitch A S K table e.func buf s) :
    PairedAt (Related hash K table B pins) (vmwCmdCheck (listed hash A S K) true buf n)
      (vmwCmdCheck (listed hash A S K) false buf n) s t := by
  refine ((apart_rd buf).paired s t hst).bind fun id u v hu _ huv => ?_
  obtain ⟨rfl, rfl⟩ := inspect_ok.1 hu
  split
  · exact (apart_not3d buf n).paired _ _ huv
  next hid =>
    refine ((apart_rd _).paired _ _ huv).bind fun size u v hu' _ huv => ?_
    obtain ⟨rfl, rfl⟩ := inspect_ok.1 hu'
    refine PairedAt.bind (paired_require _ _ _ _ huv) fun _ u v hu₁ _ huv => ?_
    obtain ⟨h₁, rfl⟩ := require_ok.1 hu₁
    refine PairedAt.bind (paired_require _ _ _ _ huv) fun _ u v hu₂ _ huv => ?_
    obtain ⟨h₂, rfl⟩ := require_ok.1 hu₂
    refine PairedAt.bind ((apart_orElse _ _).paired _ _ huv) fun entry u v hu₃ _ huv => ?_
    obtain ⟨hentry, rfl⟩ := ExecbufFields.orElse_ok.1 hu₃
    refine PairedAt.bind ((apart_field fun _ _ => rfl).paired _ _ huv) fun kernel u v hu₄ _ huv => ?_
    obtain ⟨rfl, rfl⟩ := inspect_ok.1 hu₄
    refine PairedAt.bind (paired_require _ _ _ _ huv) fun _ u v hu₅ _ huv => ?_
    obtain ⟨h₅, rfl⟩ := require_ok.1 hu₅
    refine PairedAt.bind (paired_require _ _ _ _ huv) fun _ u v hu₆ _ huv => ?_
    obtain ⟨h₆, rfl⟩ := require_ok.1 hu₆
    refine PairedAt.bind (paired_require _ _ _ _ huv) fun _ u v hu₇ _ huv => ?_
    obtain ⟨h₇, rfl⟩ := require_ok.1 hu₇
    have hrun : vmwCmdCheck (listed hash A S K) true buf n s =
        (runEntry (listed hash A S K) true entry.func buf >>= fun _ =>
          pure (addU32 (word s.mem (buf + 4)) 8) : Check _ _) s := by
      rw [vmwCmdCheck, bind_of_ok hu, if_neg hid, bind_of_ok hu', bind_of_ok hu₁, bind_of_ok hu₂,
        bind_of_ok hu₃, bind_of_ok hu₄, bind_of_ok hu₅, bind_of_ok hu₆, bind_of_ok hu₇]
    refine PairedAt.bind (runEntry_paired hK huv buf entry.func fun hok hB => ?_)
      fun _ u v _ _ huv => ⟨rfl, huv⟩
    have hend : runEntry (listed hash A S K) true entry.func buf s =
        (.ok (), (runEntry (listed hash A S K) true entry.func buf s).2) := by rw [← hok]
    rw [bind_of_ok hend] at hrun
    exact hfresh _ _ hrun hB entry hentry

theorem checkLoop_paired (fuel : ℕ) {buf cur : ℤ} (hst : Related hash K table B pins s t)
    (hfresh : B → EveryPass (listed hash A S K) ⟨buf, cur, s⟩ fun l _ => CleanSwitch A S K table l) :
    PairedAt (Related hash K table B pins) (checkLoop (listed hash A S K) true fuel buf cur)
      (checkLoop (listed hash A S K) false fuel buf cur) s t := by
  induction fuel generalizing buf cur s t with
  | zero =>
    unfold checkLoop
    split
    · exact ⟨rfl, hst⟩
    · split
      · exact ⟨rfl, hst⟩
      · exact ⟨rfl, hst⟩
  | succ fuel ih =>
    unfold checkLoop
    split
    next hpos =>
      have hfirst : ∀ k u, vmwCmdCheck (listed hash A S K) true buf cur.toNat s = (.ok k, u) →
          pass (listed hash A S K) ⟨buf, cur, s⟩ k =
            some ⟨buf + k, Int.bmod (cur - k) (2 ^ 32), u⟩ := by
        intro k u hk
        rw [vmwCmdCheck_cached] at hk
        exact pass_of_ok (l := ⟨buf, cur, s⟩) hpos hk
      refine PairedAt.bind (cmdCheck_paired hK hst buf cur.toNat fun k u hk hB => ?_)
        fun k u v hu _ huv => ?_
      · exact hfresh hB [] _ k _ (.refl _) (hfirst k u hk)
      · refine PairedAt.bind (ih huv fun hB as m k' m' hruns hp => ?_) fun _ _ _ _ _ h => ⟨rfl, h⟩
        exact hfresh hB (k :: as) m k' m' (.next trivial (hfirst k u hu) hruns) hp
    next =>
      split
      · exact ⟨rfl, hst⟩
      · exact ⟨rfl, hst⟩

omit hK

structure Begins (s : SwContext (Lists hash σ)) : Prop where
  cache : ∀ t, s.resCache t = ⟨0, none, none, false, false⟩
  mergeDups : s.rest.val.mergeDups = true
  hasHt : s.rest.val.hasHt = true

theorem Begins.related (h : Begins s) : Related hash K table B (fun _ _ => False) s s where
  outside := rfl
  inside :=
    { entries := fun _ => SameEntry.refl _
      alike := ⟨rfl, fun _ => rfl, fun _ => id⟩
      backups := fun _ => rfl
      flags := fun _ => rfl
      mergeDups := h.mergeDups
      hasHt := h.hasHt
      held := fun t r hr => by
        change (s.resCache t).holds r = true at hr
        rw [h.cache] at hr
        cases hr
      handles := fun t ht => by
        change (s.resCache t).validHandle = true at ht
        rw [h.cache] at ht
        cases ht
      pinned := fun _ _ hp => hp.elim }

structure SameOutcome (K : Kernel (Lists hash σ)) (s t : SwContext (Lists hash σ)) : Prop where
  /-- Resources of commands, relocations, bindings, contexts, buffers and the driver's state. -/
  others : t = { s with
    resCache := t.resCache
    rest := { s.rest with val := t.rest.val, switch := t.rest.switch } }
  info : ∀ r, (vmwExecbufInfoFromRes K r t).1 = (vmwExecbufInfoFromRes K r s).1
  lists : t.rest.val = { s.rest.val with resNode := t.rest.val.resNode }
  nodes : ∀ x, (t.rest.val.resNode x).res = (s.rest.val.resNode x).res
  backups : ∀ x, (t.rest.switch x).map target = (s.rest.switch x).map target

theorem Related.sameOutcome (h : Related hash K table B pins s t) :
    SameOutcome (listed hash A S K) s t where
  others := h.outside
  info r := (info_paired r s t h).result.symm
  lists := h.inside.alike.lists
  nodes := h.inside.alike.res
  backups := h.inside.backups

/-- A batch ends in the same way with the cache and without it, and the lists differ at most in
    `first_usage` and, where a command switches the backup of a resource that the cache has and
    that was added once, in `no_buffer_needed`. -/
theorem same_without_cache (hK : FixedTable K table) (hs : Begins s) (handle fuel size : ℕ) :
    (checkBatch (listed hash A S K) true handle fuel size s).1 =
        (checkBatch (listed hash A S K) false handle fuel size s).1 ∧
      SameOutcome (listed hash A S K) (checkBatch (listed hash A S K) true handle fuel size s).2
        (checkBatch (listed hash A S K) false handle fuel size s).2 ∧
      ((∀ u, vmwExecbufTieContext (listed hash A S K) true handle s = (.ok (), u) →
          EveryPass (listed hash A S K) (start size u) fun l _ => CleanSwitch A S K table l) →
        (checkBatch (listed hash A S K) false handle fuel size s).2.rest.switch =
          (checkBatch (listed hash A S K) true handle fuel size s).2.rest.switch) := by
  have hbatch (B : Prop) (hB : B → ∀ u, vmwExecbufTieContext (listed hash A S K) true handle s =
      (.ok (), u) → EveryPass (listed hash A S K) (start size u) fun l _ => CleanSwitch A S K table l) :
      PairedAt (Related hash K table B fun _ _ => False)
        (checkBatch (listed hash A S K) true handle fuel size)
        (checkBatch (listed hash A S K) false handle fuel size) s s :=
    (tieContext_paired handle s s hs.related).bind fun _ u v hu _ huv =>
      checkLoop_paired hK fuel huv fun h => hB h u hu
  have hany := hbatch False fun h => h.elim
  refine ⟨hany.result, Related.sameOutcome hany.state, fun hclean => ?_⟩
  exact (hbatch True fun _ => hclean).state.inside.flags trivial

end Batch

section Sample

/-- The batch of the given words, with memory for every node. -/
def sampleBatch (ws : List ℕ) : SwContext (Lists (· % 256) Bool) :=
  begun (sampleContext ws true) (unused (· % 256))

theorem sampleBatch_begins (ws : List ℕ) : Begins (sampleBatch ws) := ⟨fun _ => rfl, rfl, rfl⟩

theorem sampleKernel_fixed : FixedTable (sampleKernel true) sampleLookup where
  lookup _ _ _ := rfl
  preload _ _ := rfl
  surfaces handle r h := by
    change sampleType r = .surface
    unfold sampleLookup at h
    split at h <;> cases h <;> first | assumption | simp_all
  shaders handle r h := by
    change sampleType r = .shader
    unfold sampleLookup at h
    split at h <;> cases h <;> first | assumption | simp_all

theorem bindSurface_clean : EveryPass
    (listed (· % 256) .next (allBut 0) (sampleKernel true)) (start 16 (sampleBatch [1099, 8, 3, 9]))
      fun l _ => CleanSwitch .next (allBut 0) (sampleKernel true) sampleLookup l := by
  have hcheck : ExecbufVerifier.vmwCmdCheck (listed (· % 256) .next (allBut 0) (sampleKernel true)) 0
      16 (sampleBatch [1099, 8, 3, 9]) = (.ok 16, _) := ok_of_toOption (by decide +kernel)
  refine everyPass_single (l := start 16 (sampleBatch [1099, 8, 3, 9])) (k := 16)
    (pass_of_ok (by decide) hcheck) (by decide) fun e he => ?_
  have hfunc : (cmdEntry 1099).map CmdEntry.func = some .bindGbSurface := by decide +kernel
  have hid : word (start 16 (sampleBatch [1099, 8, 3, 9])).sw.mem
      (start 16 (sampleBatch [1099, 8, 3, 9])).buf = 1099 := by decide +kernel
  rw [hid] at he
  rw [he] at hfunc
  rw [Option.some.inj hfunc]
  rintro ⟨-, r, -, hr⟩
  cases hr

theorem bindSurface_same :
    (checkBatch (listed (· % 256) .next (allBut 0) (sampleKernel true)) false svga3dInvalidId 1 16
        (sampleBatch [1099, 8, 3, 9])).2.rest.switch =
      (checkBatch (listed (· % 256) .next (allBut 0) (sampleKernel true)) true svga3dInvalidId 1 16
        (sampleBatch [1099, 8, 3, 9])).2.rest.switch ∧
    (checkBatch (listed (· % 256) .next (allBut 0) (sampleKernel true)) true svga3dInvalidId 1 16
        (sampleBatch [1099, 8, 3, 9])).2.rest.switch 1 = some ⟨true, 9, 0⟩ := by
  refine ⟨(same_without_cache sampleKernel_fixed (sampleBatch_begins _) _ _ _).2.2 fun u hu => ?_,
    by decide +kernel⟩
  cases hu
  exact bindSurface_clean

/-- A surface that was used before it is bound to a buffer: with the cache no buffer is needed
    for the first use. -/
theorem usedSurface_differs : FixedTable (sampleKernel true) sampleLookup ∧
    Begins (sampleBatch [1102, 4, 3, 1099, 8, 3, 9]) ∧
    (checkBatch (listed (· % 256) .next (allBut 0) (sampleKernel true)) false svga3dInvalidId 2 28
        (sampleBatch [1102, 4, 3, 1099, 8, 3, 9])).2.rest.switch ≠
      (checkBatch (listed (· % 256) .next (allBut 0) (sampleKernel true)) true svga3dInvalidId 2 28
        (sampleBatch [1102, 4, 3, 1099, 8, 3, 9])).2.rest.switch := by
  refine ⟨sampleKernel_fixed, sampleBatch_begins _, fun h => ?_⟩
  have hoff : (checkBatch (listed (· % 256) .next (allBut 0) (sampleKernel true)) false
      svga3dInvalidId 2 28 (sampleBatch [1102, 4, 3, 1099, 8, 3, 9])).2.rest.switch 1 =
        some ⟨false, 9, 0⟩ := by decide +kernel
  have hon : (checkBatch (listed (· % 256) .next (allBut 0) (sampleKernel true)) true
      svga3dInvalidId 2 28 (sampleBatch [1102, 4, 3, 1099, 8, 3, 9])).2.rest.switch 1 =
        some ⟨true, 9, 0⟩ := by decide +kernel
  rw [h, hon] at hoff
  cases hoff

end Sample

end Vmwgfx.ExecbufCacheMode

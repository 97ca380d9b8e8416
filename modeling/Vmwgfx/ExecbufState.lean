import Vmwgfx.BindingSlots
import Vmwgfx.ByteStore
import Vmwgfx.FailingState
import Vmwgfx.Word32

set_option autoImplicit false

/-!
# The state of a command submission

`vmwgfx_execbuf.c`: the submission context with its resource cache and relocation
lists, and the helpers that the command handlers are made of. Addresses are relative to
`buf_start`. Validation, handle lookup and the resource managers are a parameter with a
state of its own, so that every result holds whatever they answer.
-/
namespace Vmwgfx.ExecbufState
open Word32 ByteStore FailingState BindingSlots

inductive Errno where
  | einval
  | eperm
  | enomem
  | esrch
  | erestartsys
  | other (code : ℕ)
  deriving DecidableEq, Repr

/-- An error code is returned to the caller. The others are faults of the kernel: a NULL
    resource or a NULL `dx_ctx_node` that is followed, a `BUG_ON` and an index outside a
    table. -/
inductive Stop where
  | errno (e : Errno)
  | nullRes
  | nullNode
  | bugOn
  | badIndex
  deriving DecidableEq, Repr

inductive ResType where
  | context
  | surface
  | stream
  | shader
  | dxContext
  | cotable
  | view
  deriving DecidableEq, Repr

inductive Converter where
  | context
  | surface
  | shader
  deriving DecidableEq, Repr

inductive ViewType where
  | sr
  | rt
  | ds
  | max
  deriving DecidableEq, Repr

inductive RelType where
  | normal
  | nop
  | condNop
  deriving DecidableEq, Repr

/-- `struct vmw_res_cache_entry`; resources are named by their addresses. -/
structure CacheEntry where
  handle : ℕ
  res : Option ℕ
  priv : Option ℕ
  validHandle : Bool
  valid : Bool
  deriving DecidableEq

/-- `struct vmw_resource_relocation`, with 29 bits of the offset. -/
structure ResRelocation where
  res : Option ℕ
  offset : ℕ
  relType : RelType
  deriving DecidableEq, Repr

/-- `struct vmw_relocation`. The source does not keep which of the two functions that
    translate pointers recorded it; `asMob` does. -/
structure BoRelocation where
  vbo : ℕ
  location : ℤ
  asMob : Bool
  deriving DecidableEq, Repr

structure BoNode where
  vbo : ℕ
  asMob : Bool
  cpuBlit : Bool
  deriving DecidableEq, Repr

/-- A location from which `vmw_cmd_res_check` read an id, with the id. -/
structure IdRead where
  loc : ℤ
  id : ℕ
  deriving DecidableEq, Repr

structure CtxInfo where
  ctx : ℕ
  cur : ℕ
  staged : ℕ
  deriving DecidableEq, Repr

/-- A call of `vmw_binding_add`: the state it goes to and what is bound where. -/
structure Binding where
  staged : ℕ
  ctx : ℕ
  res : Option ℕ
  bt : BindingType
  shaderSlot : ℕ
  slot : ℕ
  /-- The offset, size, stride or format of a buffer. -/
  data : List ℕ
  deriving DecidableEq, Repr

/-- A resource that a function is handed, and the one that the command names; `query` tells
    the uses by `vmw_query_bo_switch_prepare`. -/
structure Use where
  named : Option ℕ
  used : Option ℕ
  query : Bool
  deriving DecidableEq, Repr

abbrev Op (σ α : Type) := σ → Except Errno α × σ

/-- The rest of the driver: device capabilities, attributes of resources and buffers,
    and the functions of the validation code and of the resource managers. -/
structure Kernel (σ : Type) where
  hasMob : Bool
  hasDx : Bool
  /-- `SVGA_CAP_GBOBJECTS`. -/
  gb : Bool
  /-- `SVGA_CAP2_INTRA_SURFACE_COPY`. -/
  intraSurfaceCopy : Bool
  dummyQueryBo : ℕ
  resType : ℕ → ResType
  viewSrf : ℕ → ℕ
  numPages : ℕ → ℕ
  contextResMan : ℕ → ℕ
  contextBindingState : ℕ → ℕ
  contextBindingList : ℕ → σ → List ℕ
  /-- The `cotables` array of a context. -/
  cotables : ℕ → ℕ → σ → Option ℕ
  contextGetDxQueryMob : ℕ → σ → Option ℕ
  bindingStateAlloc : Op σ ℕ
  validationPreloadRes : ℕ → Op σ Unit
  validationPreloadBo : Op σ Unit
  /-- The node's private space, and whether this is the first use of the resource. -/
  validationAddResource : ℕ → ℕ → Op σ (ℕ × Bool)
  /-- The memory, the hash entry and the reference of a new buffer node. -/
  validationNewBo : ℕ → Op σ Unit
  /-- Whether there was memory. -/
  validationMemAlloc : σ → Bool × σ
  validationResSwitchBackup : ℕ → ℕ → ℕ → σ → σ
  userResourceLookup : Converter → ℕ → Op σ ℕ
  userBoLookup : ℕ → Op σ ℕ
  viewLookup : ℕ → ViewType → ℕ → Op σ ℕ
  viewAlloc : ℕ → Op σ Unit
  viewCreate : ℕ → ℕ → ℕ → ViewType → ℕ → Op σ Unit
  cmdbufResRemove : ℕ → ViewType → ℕ → Op σ (Option ℕ)
  shaderLookup : ℕ → ℕ → ℕ → Op σ ℕ
  shaderRemove : ℕ → ℕ → ℕ → Op σ Unit
  compatShaderAdd : ℕ → ℕ → ℤ → ℕ → ℕ → Op σ Unit
  dxShaderAdd : ℕ → ℕ → ℕ → ℕ → Op σ Unit
  cotableSeen : ℕ → ℕ → σ → σ
  kmsCursorSnoop : ℕ → ℕ → ℤ → σ → σ

/-- `struct vmw_sw_context`, with the memory that holds the commands. -/
structure SwContext (σ : Type) where
  mem : Memory
  kernel : Bool
  resCache : ResType → CacheEntry
  resRelocations : List ResRelocation
  boRelocations : List BoRelocation
  /-- The `bo_list` of the validation context. -/
  boList : List BoNode
  /-- The private space of validation nodes. -/
  info : ℕ → CtxInfo
  ctxList : List ℕ
  stagedBindings : Option ℕ
  stagedBindingsInuse : Bool
  dxCtxNode : Option ℕ
  man : ℕ
  curQueryBo : Option ℕ
  lastQueryCtx : Option ℕ
  needsPostQueryBarrier : Bool
  dxQueryMob : Option ℕ
  dxQueryCtx : Option ℕ
  bindings : List Binding
  /-- The ids that `vmw_cmd_res_check` read, in order. -/
  idReads : List IdRead
  /-- The locations of ids for whose relocation there was no memory. -/
  unrecorded : List ℤ
  /-- The resources that were used for fields of commands, in order. -/
  uses : List Use
  rest : σ

abbrev Check (σ : Type) : Type → Type := Run (SwContext σ) Stop

section Primitives
variable {σ α : Type}

def fail (e : Errno) : Check σ α := stop (.errno e)

def current : Check σ (SwContext σ) := inspect fun s => s

/-- `*(uint32_t *) a`. -/
def rd (a : ℤ) : Check σ ℕ := inspect fun s => word s.mem a

def wr (a : ℤ) (v : ℕ) : Check σ Unit := update fun s => { s with mem := store s.mem a v }

def call (op : Op σ α) : Check σ α := fun s =>
  match op s.rest with
  | (.ok a, r) => (.ok a, { s with rest := r })
  | (.error e, r) => (.error (.errno e), { s with rest := r })

def act (f : σ → σ) : Check σ Unit := update fun s => { s with rest := f s.rest }

/-- The return code of a function whose caller goes on in any case. -/
def retOf (m : Check σ α) : Check σ (Except Errno α) := fun s =>
  match m s with
  | (.ok a, t) => (.ok (.ok a), t)
  | (.error (.errno e), t) => (.ok (.error e), t)
  | (.error f, t) => (.error f, t)

theorem retOf_eq (m : Check σ α) (s : SwContext σ) : retOf m s = (match (m s).1 with
    | .ok a => .ok (.ok a)
    | .error (.errno e) => .ok (.error e)
    | .error f => .error f, (m s).2) := by
  unfold retOf
  rcases m s with ⟨(e | _ | _ | _ | _) | a, u⟩ <;> rfl

def ofRet : Except Errno α → Check σ α
  | .ok a => pure a
  | .error e => fail e

def deref : Option α → Check σ α
  | some a => pure a
  | none => stop .nullRes

def noteUse (named used : Option ℕ) (query : Bool) : Check σ Unit := update fun s =>
  { s with uses := s.uses ++ [⟨named, used, query⟩] }

def noteUnrecorded (ret : Except Errno Unit) (a : ℤ) : Check σ Unit := update fun s =>
  { s with unrecorded := s.unrecorded ++ if ret.isOk then [] else [a] }

def orElse (e : Errno) : Option α → Check σ α
  | some a => pure a
  | none => fail e

def dxCtxNode : Check σ (Option ℕ) := inspect fun s => s.dxCtxNode

end Primitives

def svga3dInvalidId : ℕ := 2 ^ 32 - 1

def svgaCotableDx10Max : ℕ := 11

def svgaCotableMaxIds : ℕ := 2 ^ 16 - 1 - 2

variable {σ : Type} (K : Kernel σ)

/-- The size of `struct vmw_ctx_validation_info` for contexts, else nothing. -/
def vmwExecbufResSize (t : ResType) : ℕ :=
  if t = .dxContext ∨ (t = .context ∧ K.hasMob) then 40 else 0

def CacheEntry.refreshed (c : CacheEntry) (res priv : ℕ) : CacheEntry :=
  { c with res := some res, priv := some priv, valid := true, validHandle := false }

def CacheEntry.named (c : CacheEntry) (id : ℕ) : CacheEntry :=
  { c with validHandle := true, handle := id }

def vmwExecbufRcacheUpdate (t : ResType) (res priv : ℕ) : Check σ Unit := update fun s =>
  { s with resCache := Function.update s.resCache t ((s.resCache t).refreshed res priv) }

/-- `rcache->valid && rcache->res == res`. -/
def CacheEntry.holds (c : CacheEntry) (res : ℕ) : Bool := c.valid && decide (c.res = some res)

def vmwExecbufResNoctxValAdd (res : ℕ) : Check σ Unit := do
  let t := K.resType res
  if ← inspect fun s => (s.resCache t).holds res then
    pure ()
  else do
    let node ← call (K.validationAddResource res 0)
    vmwExecbufRcacheUpdate t res node.1

def vmwViewResValAdd (view : ℕ) : Check σ Unit := do
  vmwExecbufResNoctxValAdd K (K.viewSrf view)
  vmwExecbufResNoctxValAdd K view

def vmwViewIdValAdd (viewType : ViewType) (id : ℕ) : Check σ ℕ := do
  let _ ← orElse .einval (← dxCtxNode)
  let man ← inspect fun s => s.man
  let view ← call (K.viewLookup man viewType id)
  vmwViewResValAdd K view
  pure view

def vmwContextCotable (ctx cotableType : ℕ) : Check σ (Except Errno (Option ℕ)) := inspect fun s =>
  if svgaCotableDx10Max ≤ cotableType then .error .einval
  else .ok (K.cotables ctx cotableType s.rest)

def cotableValAdd (ctx i : ℕ) : Check σ Unit := do
  match ← vmwContextCotable K ctx i with
  | .error _ => pure ()
  | .ok res => do
    let r ← deref res
    vmwExecbufResNoctxValAdd K r

def boundValAdd (res : ℕ) : Check σ Unit :=
  if K.resType res = .view then vmwViewResValAdd K res else vmwExecbufResNoctxValAdd K res

def vmwValidationFindBoDup (nodes : List BoNode) (bo : ℕ) : Option BoNode :=
  nodes.find? fun node => node.vbo = bo

/-- A second use of a buffer has to agree with the first. -/
def boNodeFor (want : BoNode) : Option BoNode → Check σ Unit
  | some node =>
    require (node.asMob == want.asMob && node.cpuBlit == want.cpuBlit) (.errno .einval)
  | none => do
    call (K.validationNewBo want.vbo)
    update fun s => { s with boList := s.boList ++ [want] }

def vmwValidationAddBo (bo : ℕ) (asMob cpuBlit : Bool) : Check σ Unit := do
  let dup ← inspect fun s => vmwValidationFindBoDup s.boList bo
  boNodeFor K ⟨bo, asMob, cpuBlit⟩ dup

/-- The two loops differ: a failing cotable ends the function, a failing binding only its
    loop, and the return code of the query MOB then takes the place of the loop's. -/
def vmwResourceContextResAdd (ctx : ℕ) : Check σ Unit := do
  let dx := K.hasDx && decide (K.resType ctx = .dxContext)
  runIf dx (repeatFrom (cotableValAdd K ctx) 0 svgaCotableDx10Max)
  let bindingList ← inspect fun s => K.contextBindingList ctx s.rest
  let ret ← retOf (forEach (boundValAdd K) bindingList)
  let mob ← inspect fun s => if dx then K.contextGetDxQueryMob ctx s.rest else none
  match mob with
  | some bo => vmwValidationAddBo K bo true false
  | none => ofRet ret

/-- The staged bindings of the submission context, allocated at their first use. -/
def sharedStaged : Option ℕ → Check σ ℕ
  | some staged => pure staged
  | none => do
    let staged ← call K.bindingStateAlloc
    update fun s => { s with stagedBindings := some staged }
    pure staged

/-- The shared staged bindings go to the first context, the others get their own. -/
def nodeStaged (inuse : Bool) (shared : ℕ) : Check σ ℕ :=
  if inuse then call K.bindingStateAlloc
  else do
    update fun s => { s with stagedBindingsInuse := true }
    pure shared

def vmwCmdCtxFirstSetup (res node : ℕ) : Check σ Unit := do
  vmwResourceContextResAdd K res
  let s ← current
  let shared ← sharedStaged K s.stagedBindings
  let staged ← nodeStaged K s.stagedBindingsInuse shared
  update fun s =>
    { s with
      info := Function.update s.info node ⟨res, K.contextBindingState res, staged⟩
      ctxList := s.ctxList ++ [node] }

def vmwExecbufResNorefValAdd (res : ℕ) : Check σ Unit := do
  let t := K.resType res
  if ← inspect fun s => (s.resCache t).holds res then
    pure ()
  else do
    let privSize := vmwExecbufResSize K t
    let node ← call (K.validationAddResource res privSize)
    runIf (privSize ≠ 0 && node.2) (vmwCmdCtxFirstSetup K res node.1)
    vmwExecbufRcacheUpdate t res node.1

def memAlloc : Check σ Unit := fun s =>
  match K.validationMemAlloc s.rest with
  | (true, r) => (.ok (), { s with rest := r })
  | (false, r) => (.error (.errno .enomem), { s with rest := r })

def vmwResourceRelocationAdd (res : Option ℕ) (offset : ℤ) (relType : RelType) :
    Check σ Unit := do
  memAlloc K
  update fun s =>
    { s with resRelocations := s.resRelocations ++ [⟨res, (offset % 2 ^ 29).toNat, relType⟩] }

/-- The branch of `vmw_cmd_res_check` for a handle that is not the cached one. -/
def vmwCmdResLookup (t : ResType) (converter : Converter) (id : ℕ) : Check σ (Option ℕ) := do
  call (K.validationPreloadRes (vmwExecbufResSize K t))
  let res ← call (K.userResourceLookup converter id)
  vmwExecbufResNorefValAdd K res
  update fun s =>
    if (s.resCache t).holds res then
      { s with resCache := Function.update s.resCache t ((s.resCache t).named id) }
    else s
  pure (some res)

def vmwCmdResCheck (t : ResType) (converter : Converter) (idLoc : ℤ) :
    Check σ (Option ℕ) := do
  let id ← rd idLoc
  update fun s => { s with idReads := s.idReads ++ [⟨idLoc, id⟩] }
  if id = svga3dInvalidId then
    if t = .context then fail .einval else pure none
  else do
    let c ← inspect fun s => s.resCache t
    let res ← (if c.validHandle && decide (id = c.handle) then pure c.res
      else vmwCmdResLookup K t converter id)
    -- the return code of this call is dropped
    let ret ← retOf (vmwResourceRelocationAdd K res idLoc .normal)
    noteUnrecorded ret idLoc
    pure res

/-- The address of the private space; a resource that is NULL is followed. -/
def vmwExecbufInfoFromRes (res : Option ℕ) : Check σ (Option ℕ) := do
  noteUse res res false
  let r ← deref res
  inspect fun s =>
    if (s.resCache (K.resType r)).holds r then (s.resCache (K.resType r)).priv else none

def stagedOf (node : ℕ) : Check σ ℕ := inspect fun s => (s.info node).staged

def ctxOf (node : ℕ) : Check σ ℕ := inspect fun s => (s.info node).ctx

def vmwBindingAdd (b : Binding) : Check σ Unit := update fun s =>
  { s with bindings := s.bindings ++ [b] }

def viewOf (viewType : ViewType) (id : ℕ) : Check σ (Option ℕ) :=
  if id = svga3dInvalidId then pure none
  else do
    let view ← vmwViewIdValAdd K viewType id
    pure (some view)

def vmwViewBindingsAdd (viewType : ViewType) (bt : BindingType) (shaderSlot : ℕ) (viewIds : ℤ)
    (numViews firstSlot : ℕ) : Check σ Unit := do
  let node ← orElse .einval (← dxCtxNode)
  repeatFrom (fun i => do
    let id ← rd (viewIds + 4 * i)
    let view ← viewOf K viewType id
    vmwBindingAdd ⟨← stagedOf node, ← ctxOf node, view, bt, shaderSlot,
      addU32 firstSlot i, []⟩) 0 numViews

/-- The buffer that held the results so far stays on the list until a barrier. -/
def queryBoBarrier : Option ℕ → Check σ Unit
  | some bo => do
    update fun s => { s with needsPostQueryBarrier := true }
    vmwValidationAddBo K bo K.hasMob false
  | none => pure ()

/-- The context is not an argument of the source function, which takes the one in the
    cache; `ctx` is the one that the command names. -/
def vmwQueryBoSwitchPrepare (ctx : Option ℕ) (newQueryBo : ℕ) : Check σ Unit := do
  let s ← current
  require (s.resCache .context).valid .bugOn
  noteUse ctx (s.resCache .context).res true
  update fun s => { s with lastQueryCtx := (s.resCache .context).res }
  runIf (s.curQueryBo ≠ some newQueryBo) do
    require (K.numPages newQueryBo ≤ 4) (.errno .einval)
    queryBoBarrier K s.curQueryBo
    update fun s => { s with curQueryBo := some newQueryBo }
    vmwValidationAddBo K K.dummyQueryBo K.hasMob false

/-- What the driver keeps about the buffer that holds query results, with the calls of
    `vmw_bo_pin_reserved` and the contexts for which a dummy query was emitted. -/
structure QueryPins where
  pinnedBo : Option ℕ
  dummyQueryBoPinned : Bool
  queryCtx : Option ℕ
  pins : List (ℕ × Bool)
  dummyQueries : List (Option ℕ)
  deriving DecidableEq

/-- The two assertions of `vmw_query_bo_switch_commit`. -/
inductive CommitBug where
  | ctxEntry
  | lastQueryCtx
  deriving DecidableEq

def QueryPins.unpinned (d : QueryPins) : QueryPins :=
  { d with
    pinnedBo := none
    pins := d.pins ++ (d.pinnedBo.toList.map fun bo => (bo, false)) }

/-- The new buffer is pinned, and the dummy buffer with the first one. -/
def QueryPins.pinned (d : QueryPins) (dummyQueryBo : ℕ) (bo : Option ℕ) (ctx : ℕ) : QueryPins :=
  { d with
    pinnedBo := bo
    dummyQueryBoPinned := true
    queryCtx := some ctx
    pins := d.pins ++ (bo.toList.map fun x => (x, true)) ++
      if d.dummyQueryBoPinned then [] else [(dummyQueryBo, true)] }

def vmwQueryBoSwitchCommit (s : SwContext σ) (d : QueryPins) : Except CommitBug QueryPins := do
  let d ← (if s.needsPostQueryBarrier then
      if (s.resCache .context).valid then
        pure { d with dummyQueries := d.dummyQueries ++ [(s.resCache .context).res] }
      else throw .ctxEntry
    else pure d)
  if d.pinnedBo = s.curQueryBo then pure d
  else if s.needsPostQueryBarrier then pure d.unpinned
  else
    match s.lastQueryCtx with
    | some ctx => pure (d.unpinned.pinned K.dummyQueryBo s.curQueryBo ctx)
    | none => throw .lastQueryCtx

/-- `vmw_translate_mob_ptr` and `vmw_translate_guest_ptr` differ in how the buffer is
    validated; the return code of the preload is dropped by both. -/
def vmwTranslatePtr (asMob : Bool) (loc : ℤ) : Check σ ℕ := do
  let handle ← rd loc
  let _ ← retOf (call K.validationPreloadBo)
  let bo ← call (K.userBoLookup handle)
  vmwValidationAddBo K bo asMob false
  memAlloc K
  update fun s => { s with boRelocations := s.boRelocations ++ [⟨bo, loc, asMob⟩] }
  pure bo

def vmwTranslateMobPtr (loc : ℤ) : Check σ ℕ := vmwTranslatePtr K true loc

def vmwTranslateGuestPtr (loc : ℤ) : Check σ ℕ := vmwTranslatePtr K false loc

def vmwCmdResSwitchBackup (res : Option ℕ) (bufId : ℤ) (backupOffset : ℕ) : Check σ Unit := do
  let info ← orElse .einval (← vmwExecbufInfoFromRes K res)
  let vbo ← vmwTranslateMobPtr K bufId
  act (K.validationResSwitchBackup info vbo backupOffset)

def vmwCmdSwitchBackup (t : ResType) (converter : Converter) (resId bufId : ℤ)
    (backupOffset : ℕ) : Check σ Unit := do
  let res ← vmwCmdResCheck K t converter resId
  vmwCmdResSwitchBackup K res bufId backupOffset

/-- An error pointer and NULL are both followed; the id is a signed argument. -/
def vmwCotableNotify (res : Except Errno (Option ℕ)) (id : ℕ) : Check σ Unit := do
  let cotable ← deref (res.toOption.bind fun r => r)
  require (id < 2 ^ 31 && id < svgaCotableMaxIds) (.errno .einval)
  act (K.cotableSeen cotable id)

/-- With no handle the submission has no DX context; a handle may also name a context of
    the older kind. -/
def vmwExecbufTieContext (handle : ℕ) : Check σ Unit :=
  if handle = svga3dInvalidId then pure ()
  else do
    call (K.validationPreloadRes (vmwExecbufResSize K .dxContext))
    let res ← call (K.userResourceLookup .context handle)
    vmwExecbufResNorefValAdd K res
    let node ← vmwExecbufInfoFromRes K (some res)
    update fun s => { s with dxCtxNode := node, man := K.contextResMan res }

/-- What `vmw_execbuf_process` resets before it looks at a batch. -/
def resetContext (s : SwContext σ) (kernel : Bool) (mem : Memory) (pinnedBo : Option ℕ) :
    SwContext σ :=
  { s with
    mem := mem
    kernel := kernel
    resCache := fun _ => ⟨0, none, none, false, false⟩
    resRelocations := []
    boRelocations := []
    boList := []
    ctxList := []
    dxCtxNode := none
    curQueryBo := pinnedBo
    lastQueryCtx := none
    needsPostQueryBarrier := false
    dxQueryMob := none
    dxQueryCtx := none
    bindings := []
    idReads := []
    unrecorded := []
    uses := [] }

end Vmwgfx.ExecbufState

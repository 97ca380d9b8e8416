import Vmwgfx.BindingSlots

set_option autoImplicit false

/-!
# The binding manager

`vmwgfx_binding.c`: the tracker of what is bound to the slots of each context, and the
commands with which bindings are scrubbed and bound again. The linked lists are lists of
slots; an insertion of a linked slot and a removal of an unlinked one, which would damage
them, are noted in `misuse`. Reservations of FIFO space fail as the two streams of outcomes
tell: one for the commands of the scrub functions, one for the delayed commands.
-/
namespace Vmwgfx.BindingMachine
open BindingSlots

/-- The binding state of a context, or one that is built during a submission. -/
inductive StateId where
  | persistent (ctx : ℕ)
  | staged (i : ℕ)
  deriving DecidableEq, Repr

abbrev SlotRef := StateId × Loc

/-- The node `res_list` of a slot: initialized, linked into the list of a resource, or left
    with pointers that are copied or poisoned. -/
inductive ResLink where
  | self
  | on (r : ℕ)
  | stale
  deriving DecidableEq, Repr

/-- `struct vmw_ctx_bindinfo` with the offset, size, stride or format that follow it. The
    face and mipmap of a render target are not kept. -/
structure Slot where
  ctx : Option ℕ
  res : Option ℕ
  bt : BindingType
  scrubbed : Bool
  data : List ℕ
  resList : ResLink
  deriving DecidableEq, Repr

/-- What the caller of `vmw_binding_add` has filled in. -/
structure BindInfo where
  ctx : ℕ
  res : Option ℕ
  bt : BindingType
  data : List ℕ
  deriving DecidableEq, Repr

inductive DirtyBit where
  | rt
  | ps
  | so
  | vb
  deriving DecidableEq, Repr

/-- `struct vmw_ctx_binding_state`. -/
structure Cbs where
  slots : Loc → Slot
  list : List Loc
  dirty : DirtyBit → Bool
  dirtyVb : ℕ → Bool
  /-- `VMW_BINDING_PS_SR_BIT` of each shader type. -/
  dirtyPs : Fin 3 → Bool
  dirtySr : Fin 3 → ℕ → Bool

/-- What the device has in a slot: the resource whose id it was given, and the rest. -/
structure Content where
  res : ℕ
  data : List ℕ
  deriving DecidableEq, Repr

abbrev Device := ℕ → Loc → Option Content

/-- Commands that set one slot, and those that set many. -/
inductive BindCmd where
  | single (ctx : ℕ) (loc : Loc) (x : Option Content)
  | shaderResources (ctx : ℕ) (shaderSlot : Fin 3) (start : ℕ) (xs : List (Option Content))
  | renderTargets (ctx : ℕ) (ds : Option Content) (xs : List (Option Content))
  | soTargets (ctx : ℕ) (xs : List (Option Content))
  | vertexBuffers (ctx : ℕ) (start : ℕ) (xs : List (Option Content))
  deriving DecidableEq, Repr

/-- Slot `i` after a command for the slots from `start` on. -/
def setFrom (start : ℕ) (xs : List (Option Content)) (i : ℕ) (old : Option Content) :
    Option Content :=
  if start ≤ i ∧ i < start + xs.length then xs.getD (i - start) none else old

/-- The slots of one context; the commands for all render targets and for all stream output
    targets unbind the slots that they do not list. -/
def BindCmd.set (cmd : BindCmd) (dev : Loc → Option Content) (l : Loc) : Option Content :=
  match cmd, l with
  | .single _ loc x, l => if l = loc then x else dev l
  | .shaderResources _ sh start xs, .sr sh' i =>
    if sh' = sh then setFrom start xs i (dev l) else dev l
  | .renderTargets _ _ xs, .rt i => if i.val < 8 then xs.getD i none else dev l
  | .renderTargets _ ds _, .ds => ds
  | .soTargets _ xs, .so i => xs.getD i none
  | .vertexBuffers _ start xs, .vb i => setFrom start xs i (dev l)
  | _, l => dev l

def BindCmd.ctx : BindCmd → ℕ
  | .single c _ _ | .shaderResources c _ _ _ | .renderTargets c _ _ | .soTargets c _
  | .vertexBuffers c _ _ => c

def BindCmd.exec (cmd : BindCmd) (dev : Device) : Device :=
  Function.update dev cmd.ctx (cmd.set (dev cmd.ctx))

structure Manager where
  cbs : StateId → Cbs
  bindingHead : ℕ → List SlotRef
  /-- Whether the resource has an id. -/
  valid : ℕ → Bool
  device : Device
  now : List Bool
  later : List Bool
  misuse : Bool
  /-- The contexts for which `vmw_binding_emit_dirty` has called emitters. -/
  dispatches : List (Option ℕ)

def Cbs.setSlot (b : Cbs) (l : Loc) (x : Slot) : Cbs :=
  { b with slots := Function.update b.slots l x }

def Manager.slot (s : Manager) (p : SlotRef) : Slot := (s.cbs p.1).slots p.2

def Manager.setCbs (s : Manager) (i : StateId) (b : Cbs) : Manager :=
  { s with cbs := Function.update s.cbs i b }

def Manager.setSlot (s : Manager) (p : SlotRef) (x : Slot) : Manager :=
  s.setCbs p.1 ((s.cbs p.1).setSlot p.2 x)

section Lists

/-- `list_del(&bi->ctx_list)`. -/
def ctxListDel (p : SlotRef) (s : Manager) : Manager :=
  let b := s.cbs p.1
  { s.setCbs p.1 { b with list := b.list.erase p.2 } with
    misuse := s.misuse || decide (p.2 ∉ b.list) }

def ctxListAdd (p : SlotRef) (s : Manager) : Manager :=
  let b := s.cbs p.1
  { s.setCbs p.1 { b with list := p.2 :: b.list } with
    misuse := s.misuse || decide (p.2 ∈ b.list) }

def ctxListAddTail (p : SlotRef) (s : Manager) : Manager :=
  let b := s.cbs p.1
  { s.setCbs p.1 { b with list := b.list ++ [p.2] } with
    misuse := s.misuse || decide (p.2 ∈ b.list) }

/-- `if (!list_empty(&bi->res_list)) list_del(&bi->res_list)`. -/
def resListDel (p : SlotRef) (s : Manager) : Manager :=
  match (s.slot p).resList with
  | .self => s
  | .on r =>
    { s with
      bindingHead := Function.update s.bindingHead r ((s.bindingHead r).erase p)
      misuse := s.misuse || decide (p ∉ s.bindingHead r) }
  | .stale => { s with misuse := true }

def resListAddTail (p : SlotRef) (r : ℕ) (s : Manager) : Manager :=
  { s with
    bindingHead := Function.update s.bindingHead r (s.bindingHead r ++ [p])
    misuse := s.misuse || decide (p ∈ s.bindingHead r) }

def ResLink.deleted : ResLink → ResLink
  | .self => .self
  | _ => .stale

def vmwBindingDrop (p : SlotRef) (s : Manager) : Manager :=
  let t := resListDel p (ctxListDel p s)
  t.setSlot p { t.slot p with ctx := none, resList := (t.slot p).resList.deleted }

/-- The test `loc->ctx != NULL` before a drop. -/
def dropLive (p : SlotRef) (s : Manager) : Manager :=
  if (s.slot p).ctx.isSome then vmwBindingDrop p s else s

def vmwBindingAdd (p : SlotRef) (bi : BindInfo) (s : Manager) : Manager :=
  let t := ctxListAdd p (dropLive p s)
  t.setSlot p ⟨some bi.ctx, bi.res, bi.bt, false, bi.data, .self⟩

def linkCopy (p : SlotRef) (bi : Slot) (r : ℕ) (s : Manager) : Manager :=
  resListAddTail p r ((ctxListAddTail p s).setSlot p { bi with resList := .on r })

/-- A staged slot with no resource only ends the binding that was there. -/
def vmwBindingTransfer (c i : ℕ) (l : Loc) (s : Manager) : Manager :=
  let bi := s.slot (.staged i, l)
  let t := dropLive (.persistent c, l) s
  match bi.res with
  | none => t
  | some r => linkCopy (.persistent c, l) bi r t

def vmwBindingStateCommit (c i : ℕ) (s : Manager) : Manager :=
  (s.cbs (.staged i)).list.foldl
    (fun s l => vmwBindingDrop (.staged i, l) (vmwBindingTransfer c i l s)) s

def Manager.entries (s : Manager) (i : StateId) : List SlotRef := (s.cbs i).list.map fun l => (i, l)

def dropAll (ps : List SlotRef) (s : Manager) : Manager :=
  ps.foldl (fun s p => vmwBindingDrop p s) s

def vmwBindingStateReset (i : StateId) (s : Manager) : Manager := dropAll (s.entries i) s

end Lists

section Emission

def vmwCbsContext (b : Cbs) : Option ℕ := b.list.head?.bind fun l => (b.slots l).ctx

/-- `res->id`, `none` for an invalid id. A live slot of a context has a resource. -/
def idOf (valid : ℕ → Bool) (x : Slot) (data : List ℕ) : Option Content :=
  (x.res.filter valid).map fun r => ⟨r, data⟩

def shown (valid : ℕ → Bool) (x : Slot) : Option Content :=
  if x.ctx.isNone || x.scrubbed then none else idOf valid x x.data

/-- `vmw_collect_view_ids` and `vmw_collect_so_targets`: up to the first slot that is not
    bound. -/
def collectLeading (valid : ℕ → Bool) (slotAt : ℕ → Slot) (maxNum : ℕ) :
    List (Option Content) :=
  ((List.range maxNum).takeWhile fun i => (slotAt i).ctx.isSome).map fun i =>
    shown valid (slotAt i)

def findNextBit (bits : ℕ → Bool) (size offset : ℕ) : ℕ :=
  ((List.range' offset (size - offset)).find? bits).getD size

/-- The slots that the loops over dirty bits collect, from `i` on: they end with the last
    dirty bit. -/
def dirtyCount (bits : ℕ → Bool) (maxNum : ℕ) : ℕ → ℕ → ℕ
  | _, 0 => 0
  | i, left + 1 =>
    if bits i && decide (maxNum ≤ findNextBit bits maxNum (i + 1)) then 1
    else dirtyCount bits maxNum (i + 1) left + 1

def dirtySpan (bits : ℕ → Bool) (maxNum : ℕ) : ℕ × ℕ :=
  let first := findNextBit bits maxNum 0
  (first, dirtyCount bits maxNum first (maxNum - first))

/-- `vmw_collect_dirty_view_ids` and `vmw_collect_dirty_vbs`. -/
def collectDirty (valid : ℕ → Bool) (slotAt : ℕ → Slot) (span : ℕ × ℕ) :
    List (Option Content) :=
  (List.range' span.1 span.2).map fun i => shown valid (slotAt i)

def bitmapClear (bits : ℕ → Bool) (span : ℕ × ℕ) : ℕ → Bool := fun i =>
  bits i && !decide (span.1 ≤ i ∧ i < span.1 + span.2)

def rtAt (b : Cbs) (i : ℕ) : Slot := b.slots (.rt (Fin.ofNat 10 i))

def soAt (b : Cbs) (i : ℕ) : Slot := b.slots (.so (Fin.ofNat 4 i))

def srAt (b : Cbs) (sh : Fin 3) (i : ℕ) : Slot := b.slots (.sr sh (Fin.ofNat 128 i))

def vbAt (b : Cbs) (i : ℕ) : Slot := b.slots (.vb (Fin.ofNat 32 i))

/-- A reservation and the command in it. The emitters take the context from the list and
    follow it; with a NULL context the kernel stops, here the emitter fails. -/
def sendLater (i : StateId) (cmd : ℕ → BindCmd) (s : Manager) : Bool × Manager :=
  match vmwCbsContext (s.cbs i) with
  | none => (false, s)
  | some c =>
    if s.later.headD true then
      (true, { s with later := s.later.tail, device := (cmd c).exec s.device })
    else (false, { s with later := s.later.tail })

/-- An emitter that has nothing to send makes no reservation. -/
def sendSome (i : StateId) (count : ℕ) (cmd : ℕ → BindCmd) (s : Manager) : Bool × Manager :=
  if count = 0 then (true, s) else sendLater i cmd s

def vmwEmitSetSr (i : StateId) (sh : Fin 3) (s : Manager) : Bool × Manager :=
  let b := s.cbs i
  let span := dirtySpan (b.dirtySr sh) 128
  let r := sendSome i span.2
    (fun c => .shaderResources c sh span.1 (collectDirty s.valid (srAt b sh) span)) s
  if r.1 then
    let bits := Function.update b.dirtySr sh (bitmapClear (b.dirtySr sh) span)
    (true, r.2.setCbs i { b with dirtySr := bits })
  else r

def vmwEmitSetRt (i : StateId) (s : Manager) : Bool × Manager :=
  let b := s.cbs i
  sendLater i (fun c =>
    .renderTargets c (shown s.valid (b.slots .ds)) (collectLeading s.valid (rtAt b) 8)) s

def vmwEmitSetSo (i : StateId) (s : Manager) : Bool × Manager :=
  let xs := collectLeading s.valid (soAt (s.cbs i)) 4
  sendSome i xs.length (fun c => .soTargets c xs) s

def vmwEmitSetVb (i : StateId) (s : Manager) : Bool × Manager :=
  let b := s.cbs i
  let span := dirtySpan b.dirtyVb 32
  let r := sendSome i span.2
    (fun c => .vertexBuffers c span.1 (collectDirty s.valid (vbAt b) span)) s
  if r.1 then (true, r.2.setCbs i { b with dirtyVb := bitmapClear b.dirtyVb span }) else r

/-- The shader types in order; a failure ends the loop and is not reported. -/
def emitShaders (i : StateId) : List (Fin 3) → Manager → Manager
  | [], s => s
  | sh :: shs, s =>
    if (s.cbs i).dirtyPs sh then
      let r := vmwEmitSetSr i sh s
      if r.1 then
        let b := r.2.cbs i
        emitShaders i shs
          (r.2.setCbs i { b with dirtyPs := Function.update b.dirtyPs sh false })
      else r.2
    else emitShaders i shs s

def vmwBindingEmitDirtyPs (i : StateId) (s : Manager) : Bool × Manager :=
  (true, emitShaders i [0, 1, 2] s)

def emitter (i : StateId) : DirtyBit → Manager → Bool × Manager
  | .rt => vmwEmitSetRt i
  | .ps => vmwBindingEmitDirtyPs i
  | .so => vmwEmitSetSo i
  | .vb => vmwEmitSetVb i

def emitBit (i : StateId) (bit : DirtyBit) (s : Manager) : Bool × Manager :=
  let t := { s with dispatches := s.dispatches ++ [vmwCbsContext (s.cbs i)] }
  let r := emitter i bit t
  if r.1 then
    let b := r.2.cbs i
    (true, r.2.setCbs i { b with dirty := Function.update b.dirty bit false })
  else r

def emitBits (i : StateId) : List DirtyBit → Manager → Bool × Manager
  | [], s => (true, s)
  | bit :: bits, s =>
    if (s.cbs i).dirty bit then
      let r := emitBit i bit s
      if r.1 then emitBits i bits r.2 else r
    else emitBits i bits s

def vmwBindingEmitDirty (i : StateId) (s : Manager) : Bool × Manager :=
  emitBits i [.rt, .ps, .so, .vb] s

end Emission

section Scrubbing

/-- The parameters of a binding that is made again; the face and the mipmap of a render
    target are written as zero. -/
def boundData (x : Slot) : List ℕ := if x.bt = .rt then [0, 0] else x.data

/-- The scrub functions that send their command at once. -/
def sendNow (c : ℕ) (l : Loc) (x : Option Content) (s : Manager) : Bool × Manager :=
  if s.now.headD true then
    (true, { s with now := s.now.tail, device := (BindCmd.single c l x).exec s.device })
  else (false, { s with now := s.now.tail })

/-- The scrub functions that leave a note of the slot for `vmw_binding_emit_dirty`. -/
def markDirty (b : Cbs) (bit : DirtyBit) (l : Loc) : Cbs :=
  let b := { b with dirty := Function.update b.dirty bit true }
  match bit, l with
  | .ps, .sr sh k =>
    { b with
      dirtySr := Function.update b.dirtySr sh (Function.update (b.dirtySr sh) k true)
      dirtyPs := Function.update b.dirtyPs sh true }
  | .vb, .vb k => { b with dirtyVb := Function.update b.dirtyVb k true }
  | _, _ => b

/-- The bit of the binding types whose commands are delayed. -/
def delayed : BindingType → Option DirtyBit
  | .dxRt | .ds => some .rt
  | .sr => some .ps
  | .so => some .so
  | .vb => some .vb
  | _ => none

/-- `vmw_binding_infos[bt].scrub_func`; the context of the slot is followed. -/
def scrubFunc (p : SlotRef) (rebind : Bool) (s : Manager) : Bool × Manager :=
  let x := s.slot p
  match x.ctx with
  | none => (false, s)
  | some c =>
    match delayed x.bt with
    | some bit =>
      (true, s.setCbs (.persistent c) (markDirty (s.cbs (.persistent c)) bit p.2))
    | none => sendNow c p.2 (if rebind then idOf s.valid x (boundData x) else none) s

def setScrubbed (p : SlotRef) (v : Bool) (s : Manager) : Manager :=
  s.setSlot p { s.slot p with scrubbed := v }

def scrubEntry (p : SlotRef) (s : Manager) : Manager :=
  if (s.slot p).scrubbed then s else setScrubbed p true (scrubFunc p false s).2

def scrubAll (ps : List SlotRef) (s : Manager) : Manager :=
  ps.foldl (fun s p => scrubEntry p s) s

def vmwBindingStateScrub (i : StateId) (s : Manager) : Manager :=
  (vmwBindingEmitDirty i (scrubAll (s.entries i) s)).2

def vmwBindingStateKill (i : StateId) (s : Manager) : Manager :=
  vmwBindingStateReset i (vmwBindingStateScrub i s)

/-- The delayed commands of the context that the slot belongs to. -/
def emitOwner (p : SlotRef) (s : Manager) : Manager :=
  match (s.slot p).ctx with
  | some c => (vmwBindingEmitDirty (.persistent c) s).2
  | none => s

def emitOwners (ps : List SlotRef) (s : Manager) : Manager :=
  ps.foldl (fun s p => emitOwner p s) s

def vmwBindingResListScrub (r : ℕ) (s : Manager) : Manager :=
  let t := scrubAll (s.bindingHead r) s
  emitOwners (t.bindingHead r) t

def vmwBindingResListKill (r : ℕ) (s : Manager) : Manager :=
  let t := vmwBindingResListScrub r s
  dropAll (t.bindingHead r) t

def needsRebind (s : Manager) (x : Slot) : Bool :=
  x.scrubbed && (x.res.filter s.valid).isSome

def rebindEntries : List SlotRef → Manager → Bool × Manager
  | [], s => (true, s)
  | p :: ps, s =>
    if needsRebind s (s.slot p) then
      let r := scrubFunc p true s
      if r.1 then rebindEntries ps (setScrubbed p false r.2) else r
    else rebindEntries ps s

def vmwBindingRebindAll (i : StateId) (s : Manager) : Manager :=
  let r := rebindEntries (s.entries i) s
  if r.1 then (vmwBindingEmitDirty i r.2).2 else r.2

end Scrubbing

end Vmwgfx.BindingMachine

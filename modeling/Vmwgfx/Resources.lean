import Vmwgfx.ExecbufState
import Vmwgfx.ListPlaces

set_option autoImplicit false

/-!
# Resources and their backup buffers

`vmwgfx_resource.c`: the reservation, validation and eviction of resources, the binding of their
backup buffers and the pins on these. Of the callbacks of a resource only the effect on the
fields below is kept; the outcome of every step that can fail is an argument. The buffers that
are moved while another one is placed are moved by steps of their own.
-/
namespace Vmwgfx.Resources
open ExecbufState (Errno)
open ListPlaces

/-- `-EBUSY`. -/
def ebusy : Errno := .other 16

inductive ResType where
  | context
  | surface
  | stream
  | shader
  | dxContext
  | cotable
  | view
  deriving DecidableEq, Repr

/-- The tables `struct vmw_res_func` of the driver. -/
inductive ResFunc where
  | legacyContext
  | gbContext
  | dxContext
  | legacySurface
  | gbSurface
  | gbShader
  | dxShader
  | cotable
  | view
  | stream
  deriving DecidableEq, Repr

namespace ResFunc

def resType : ResFunc → ResType
  | legacyContext | gbContext => .context
  | dxContext => .dxContext
  | legacySurface | gbSurface => .surface
  | gbShader | dxShader => .shader
  | cotable => .cotable
  | view => .view
  | stream => .stream

def needsBackup : ResFunc → Bool
  | gbContext | dxContext | gbSurface | gbShader | dxShader | cotable => true
  | legacyContext | legacySurface | view | stream => false

def mayEvict : ResFunc → Bool
  | gbContext | dxContext | legacySurface | gbSurface | gbShader | cotable => true
  | legacyContext | dxShader | view | stream => false

def hasCreate : ResFunc → Bool
  | legacyContext | stream => false
  | _ => true

/-- Whether there are `bind` and `unbind`. -/
def hasBind : ResFunc → Bool
  | legacyContext | view | stream => false
  | _ => true

/-- Whether a bind tells the device of a dirty buffer, and forgets that it is. -/
def bindCleans : ResFunc → Bool
  | gbContext | dxContext | gbSurface | gbShader => true
  | _ => false

/-- Whether the id goes when the resource is scrubbed with another one. -/
def scrubs : ResFunc → Bool
  | cotable | dxShader | view => true
  | _ => false

end ResFunc

/-- `struct vmw_resource`; `mobHead` is the buffer on whose `res_list` the resource is. -/
structure Res where
  func : ResFunc
  id : ℤ
  backup : Option ℕ
  mobHead : Option ℕ
  backupDirty : Bool
  resDirty : Bool
  pinCount : ℕ
  deriving DecidableEq, Repr

/-- `pinCount` counts the pins of a buffer, `otherPins` those that have other owners than the
    resources. -/
structure ResDev where
  res : ℕ → Option Res
  live : Finset ℕ
  resList : ℕ → List ℕ
  lru : ResType → List ℕ
  pinCount : ℕ → ℤ
  otherPins : ℕ → ℤ

def start : ResDev := ⟨fun _ => none, ∅, fun _ => [], fun _ => [], fun _ => 0, fun _ => 0⟩

/-- A resource, and the device without its entry for it. -/
abbrev Focus := Res × ResDev

def setRes (r : ℕ) (R : Res) (s : ResDev) : ResDev :=
  { s with res := Function.update s.res r (some R) }

@[simp] theorem setRes_self (r : ℕ) (R : Res) (s : ResDev) :
    (setRes r R s).res r = some R := Function.update_self ..

theorem setRes_of_ne {r q : ℕ} (h : q ≠ r) (R : Res) (s : ResDev) :
    (setRes r R s).res q = s.res q := Function.update_of_ne h ..

/-- `list_add_tail` of `mob_head`. -/
def mobAdd (b r : ℕ) : Focus → Focus
  | (R, s) =>
    ({ R with mobHead := some b },
      { s with resList := Function.update s.resList b (s.resList b ++ [r]) })

/-- `list_del_init` of `mob_head`. -/
def mobDel (r : ℕ) : Focus → Focus
  | (R, s) =>
    match R.mobHead with
    | none => (R, s)
    | some b =>
      ({ R with mobHead := none },
        { s with resList := Function.update s.resList b ((s.resList b).erase r) })

def lruAdd (ty : ResType) (r : ℕ) (s : ResDev) : ResDev :=
  { s with lru := Function.update s.lru ty (s.lru ty ++ [r]) }

def lruDel (ty : ResType) (r : ℕ) (s : ResDev) : ResDev :=
  { s with lru := Function.update s.lru ty ((s.lru ty).erase r) }

/-- The resources that a callback scrubs with its own one. -/
def scrubIds (l : List ℕ) (s : ResDev) : ResDev :=
  { s with
    res := fun q => (s.res q).map fun R =>
      if q ∈ l ∧ R.func.scrubs then { R with id := -1 } else R }

/-- The outcome of `create`, with the id that the resource has then: that of a DX shader has an
    id after an error, too, and a table may have a larger buffer. -/
inductive CreateOut where
  | failed (e : Errno) (id : ℤ)
  | done (id : ℤ)
  | resized (b : ℕ) (id : ℤ)
  deriving DecidableEq, Repr

def create (o : CreateOut) (r : ℕ) : Focus → Option Errno × Focus
  | (R, s) =>
    match o with
    | .failed e id => (some e, (if R.func = .dxShader then { R with id := id } else R, s))
    | .done id => (none, ({ R with id := id }, s))
    | .resized b id =>
      if R.func = .cotable then
        -- `vmw_cotable_resize`
        let f := mobAdd b r (mobDel r ({ R with backup := some b }, s))
        (none, ({ f.1 with id := id }, f.2))
      else (none, ({ R with id := id }, s))

/-- `bind`; that of a DX shader has no error. -/
def bind (o : Option Errno) (f : Focus) : Option Errno × Focus :=
  match if f.1.func = .dxShader then none else o with
  | some e => (some e, f)
  | none => (none, ({ f.1 with backupDirty := f.1.backupDirty && !f.1.func.bindCleans }, f.2))

/-- The error of `unbind`; that of a table has none. -/
def unbindRet (o : Option Errno) (func : ResFunc) : Option Errno :=
  if func = .cotable then none else o

/-- `unbind`, which does not touch `mob_head`; `l` are the resources that are scrubbed. -/
def unbind (o : Option Errno) (l : List ℕ) (r : ℕ) (f : Focus) : Option Errno × Focus :=
  match unbindRet o f.1.func with
  | some e => (some e, f)
  | none =>
    (none, (if r ∈ l ∧ f.1.func.scrubs then { f.1 with id := -1 } else f.1, scrubIds l f.2))

/-- The error of `destroy`: there is none for a table, nor for a resource without id. -/
def destroyRet (o : Option Errno) (R : Res) : Option Errno :=
  if R.func = .cotable ∨ R.id = -1 then none else o

def destroy (o : Option Errno) (f : Focus) : Option Errno × Focus :=
  match destroyRet o f.1 with
  | some e => (some e, f)
  | none => (none, ({ f.1 with id := -1 }, f.2))

structure ValidateOut where
  create : CreateOut
  bind : Option Errno
  destroy : Option Errno
  deriving DecidableEq, Repr

/-- `vmw_resource_do_validate` after the creation; `hasBo` tells whether there is a buffer. -/
def bindBackup (o : ValidateOut) (hasBo : Bool) (r : ℕ) (f : Focus) : Option Errno × Focus :=
  if f.1.func.hasBind && hasBo && (!f.1.func.needsBackup || f.1.mobHead.isNone) then
    match bind o.bind f with
    | (some e, g) => (some e, (destroy o.destroy g).2)
    | (none, g) =>
      match g.1.func.needsBackup, g.1.backup with
      | true, some b => (none, mobAdd b r g)
      | _, _ => (none, g)
  else (none, f)

def vmwResourceDoValidate (o : ValidateOut) (hasBo : Bool) (r : ℕ) (f : Focus) :
    Option Errno × Focus :=
  match if f.1.id = -1 then create o.create r f else (none, f) with
  | (some e, g) => (some e, g)
  | (none, g) =>
    match bindBackup o hasBo r g with
    | (some e, h) => (some e, h)
    | (none, h) => (none, ({ h.1 with resDirty := true }, h.2))

structure BufferOut where
  alloc : Except Errno ℕ
  reserve : Option Errno
  validate : Option Errno
  deriving Repr

structure EvictOut where
  buffer : BufferOut
  unbind : Option Errno
  scrubbed : List ℕ
  destroy : Option Errno
  deriving Repr

def vmwResourceBufAlloc (o : Except Errno ℕ) (R : Res) : Option Errno × Res :=
  match R.backup, o with
  | some _, _ => (none, R)
  | none, .error e => (some e, R)
  | none, .ok b => (none, { R with backup := some b })

def vmwResourceCheckBuffer (o : BufferOut) (R : Res) : Option Errno × Res :=
  match vmwResourceBufAlloc o.alloc R with
  | (some e, S) => (some e, S)
  | (none, S) =>
    match o.reserve with
    | some e => (some e, S)
    | none =>
      if S.func.needsBackup && S.mobHead.isNone then (none, S)
      else
        match o.validate with
        | some e => (some e, if S.backupDirty then { S with backup := none } else S)
        | none => (none, S)

/-- `vmw_resource_do_evict` after the unbind. -/
def destroyEvicted (o : EvictOut) (f : Focus) : Option Errno × Focus :=
  match destroy o.destroy f with
  | (ret, g) => (ret, ({ g.1 with backupDirty := true, resDirty := false }, g.2))

def vmwResourceDoEvict (o : EvictOut) (r : ℕ) (f : Focus) : Option Errno × Focus :=
  match vmwResourceCheckBuffer o.buffer f.1 with
  | (some e, R) => (some e, (R, f.2))
  | (none, R) =>
    if R.func.hasBind && (!R.func.needsBackup || R.mobHead.isSome) then
      match unbind o.unbind o.scrubbed r (R, f.2) with
      | (some e, g) => (some e, g)
      | (none, g) => destroyEvicted o (mobDel r g)
    else destroyEvicted o (R, f.2)

/-- The eviction of the first resource of a list, which goes to its end if that fails. There is
    no result where the list is empty. -/
def evictFirst (o : EvictOut) (ty : ResType) (s : ResDev) : Option (Option Errno × ResDev) :=
  match s.lru ty with
  | [] => none
  | r :: l =>
    match s.res r with
    | none => none
    | some R =>
      let f := vmwResourceDoEvict o r (R, { s with lru := Function.update s.lru ty l })
      let t := setRes r f.2.1 f.2.2
      some (f.1, if f.1.isSome then lruAdd ty r t else t)

def vmwResEvictErrCount : ℕ := 10

/-- One round of the loop of `vmw_resource_validate`. -/
structure Round where
  validate : ValidateOut
  evict : EvictOut

/-- What a round ends with: the result of the loop, or the number of errors so far. -/
inductive RoundEnd where
  | ends (ret : Option Errno) (s : ResDev)
  | goesOn (errCount : ℕ) (s : ResDev)

def RoundEnd.state : RoundEnd → ResDev
  | .ends _ s | .goesOn _ s => s

def validateRound (hasBo : Bool) (r : ℕ) (o : Round) (errCount : ℕ) (s : ResDev) :
    Option RoundEnd :=
  match s.res r with
  | none => none
  | some R =>
    let f := vmwResourceDoValidate o.validate hasBo r (R, s)
    let t := setRes r f.2.1 f.2.2
    if f.1 ≠ some ebusy then some (.ends f.1 t)
    else if t.lru R.func.resType = [] || !R.func.mayEvict then some (.ends (some ebusy) t)
    else
      match evictFirst o.evict R.func.resType t with
      | none => none
      | some (none, u) => some (.goesOn errCount u)
      | some (some e, u) =>
        if e = .erestartsys ∨ vmwResEvictErrCount < errCount + 1 then some (.ends (some e) u)
        else some (.goesOn (errCount + 1) u)

/-- The loop of `vmw_resource_validate`, with the outcomes of its rounds. There is no result as
    long as it goes on. -/
def validateLoop (hasBo : Bool) (r : ℕ) :
    List Round → ℕ → ResDev → Option (Option Errno × ResDev)
  | [], _, _ => none
  | o :: os, errCount, s =>
    match validateRound hasBo r o errCount s with
    | none => none
    | some (.ends ret t) => some (ret, t)
    | some (.goesOn n t) => validateLoop hasBo r os n t

/-- What `vmw_resource_validate` does after the loop. -/
def releaseBackup (r : ℕ) (s : ResDev) : ResDev :=
  match s.res r with
  | none => s
  | some R =>
    if !R.func.needsBackup && R.backup.isSome then
      let f := mobDel r (R, s)
      setRes r { f.1 with backup := none } f.2
    else s

def vmwResourceValidate (os : List Round) (r : ℕ) (s : ResDev) :
    Option (Option Errno × ResDev) :=
  match s.res r with
  | none => none
  | some R =>
    if !R.func.hasCreate then some (none, s)
    else
      match validateLoop R.backup.isSome r os 0 s with
      | none => none
      | some (some e, t) => some (some e, t)
      | some (none, t) => some (none, releaseBackup r t)

def vmwResourceReserve (o : Except Errno ℕ) (noBackup : Bool) (r : ℕ) : Focus → Option Errno × Focus
  | (R, s) =>
    let t := lruDel R.func.resType r s
    if R.func.needsBackup && !noBackup then
      match vmwResourceBufAlloc o R with
      | (ret, S) => (ret, (S, t))
    else (none, (R, t))

/-- The switch of the backup buffer by `vmw_resource_unreserve`. -/
def switchBackup (new : Option ℕ) (r : ℕ) : Focus → Focus
  | (R, s) =>
    if new = R.backup then (R, s)
    else
      let g := if R.backup.isSome then mobDel r (R, s) else (R, s)
      match new with
      | some b => mobAdd b r ({ g.1 with backup := some b }, g.2)
      | none => ({ g.1 with backup := none }, g.2)

/-- `vmw_resource_unreserve`; `switch` is the buffer to switch to, if any is. -/
def vmwResourceUnreserve (switch : Option (Option ℕ)) (r : ℕ) (f : Focus) : Focus :=
  if r ∈ f.2.lru f.1.func.resType then f
  else
    let g := switch.elim f (switchBackup · r f)
    if !g.1.func.mayEvict || g.1.id = -1 || g.1.pinCount ≠ 0 then g
    else (g.1, lruAdd g.1.func.resType r g.2)

def unreserveAt (switch : Option (Option ℕ)) (r : ℕ) (s : ResDev) : ResDev :=
  match s.res r with
  | none => s
  | some R =>
    let f := vmwResourceUnreserve switch r (R, s)
    setRes r f.1 f.2

/-- `vmw_resource_unbind_list`; the outcome for each resource. -/
def vmwResourceUnbindList (o : ℕ → Option Errno × List ℕ) : List ℕ → ResDev → ResDev
  | [], s => s
  | r :: l, s =>
    match s.res r with
    | none => vmwResourceUnbindList o l s
    | some R =>
      if !R.func.hasBind then vmwResourceUnbindList o l s
      else
        let f := (unbind (o r).1 (o r).2 r (R, s)).2
        let g := mobDel r ({ f.1 with backupDirty := true, resDirty := false }, f.2)
        vmwResourceUnbindList o l (setRes r g.1 g.2)

/-- `vmw_bo_pin_reserved`, which does not fail. -/
def vmwBoPinReserved (b : ℕ) (pin : Bool) (s : ResDev) : ResDev :=
  { s with pinCount := Function.update s.pinCount b (s.pinCount b + if pin then 1 else -1) }

/-- A pin of a resource: the allocation of its buffer, its placement and the validation. -/
structure PinOut where
  alloc : Except Errno ℕ
  boValidate : Option Errno
  rounds : List Round

/-- `++res->pin_count`, which is a 64-bit number. -/
def Res.addPin (R : Res) : Res := { R with pinCount := (R.pinCount + 1) % 2 ^ 64 }

/-- `--res->pin_count`. -/
def Res.dropPin (R : Res) : Res :=
  { R with pinCount := if R.pinCount = 0 then 2 ^ 64 - 1 else R.pinCount - 1 }

def addPinAt (r : ℕ) (s : ResDev) : ResDev :=
  match s.res r with
  | none => s
  | some R => setRes r R.addPin s

/-- What `vmw_resource_pin` does before the validation: it ends there, or the buffer is pinned. -/
inductive PinStart where
  | ends (ret : Option Errno) (s : ResDev)
  | validates (s : ResDev)

def PinStart.state : PinStart → ResDev
  | .ends _ s | .validates s => s

def pinStart (o : PinOut) (r : ℕ) (s : ResDev) : Option PinStart :=
  match s.res r with
  | none => none
  | some R =>
    match vmwResourceReserve o.alloc false r (R, s) with
    | (some e, (S, t)) => some (.ends (some e) (setRes r S t))
    | (none, (S, t)) =>
      let t := setRes r S t
      if S.pinCount ≠ 0 then some (.ends none (unreserveAt none r (addPinAt r t)))
      else
        match S.backup, o.boValidate with
        | some b, some e =>
          if t.pinCount b = 0 then some (.ends (some e) (unreserveAt none r t))
          else some (.validates (vmwBoPinReserved b true t))
        | some b, none => some (.validates (vmwBoPinReserved b true t))
        | none, _ => some (.validates t)

def vmwResourcePin (o : PinOut) (r : ℕ) (s : ResDev) : Option (Option Errno × ResDev) :=
  match pinStart o r s with
  | none => none
  | some (.ends ret t) => some (ret, t)
  | some (.validates t) =>
    match vmwResourceValidate o.rounds r t with
    | none => none
    | some (some e, u) => some (some e, unreserveAt none r u)
    | some (none, u) => some (none, unreserveAt none r (addPinAt r u))

def vmwResourceUnpin (r : ℕ) (s : ResDev) : Option ResDev :=
  match s.res r with
  | none => none
  | some R =>
    let t := setRes r R.dropPin (lruDel R.func.resType r s)
    let u := if R.dropPin.pinCount = 0 then R.backup.elim t (vmwBoPinReserved · false t) else t
    some (unreserveAt none r u)

inductive Op where
  /-- `vmw_resource_init` at a free address, with the buffer that its creator gives it. -/
  | init (r : ℕ) (func : ResFunc) (id : ℤ) (backup : Option ℕ)
  | reserve (o : Except Errno ℕ) (noBackup : Bool) (r : ℕ)
  | unreserve (switch : Option (Option ℕ)) (r : ℕ)
  /-- `vmw_resource_validate` of a resource that is reserved. -/
  | validate (os : List Round) (r : ℕ)
  /-- A round of `vmw_resource_evict_type`. -/
  | evict (o : EvictOut) (ty : ResType)
  /-- A buffer is moved out of MOB memory. -/
  | moveOut (o : ℕ → Option Errno × List ℕ) (b : ℕ)
  | pin (o : PinOut) (r : ℕ)
  | unpin (r : ℕ)
  /-- `vmw_bo_pin_reserved` by another owner. -/
  | otherPin (b : ℕ) (pin : Bool)

def step (s : ResDev) : Op → Option ResDev
  | .init r func id backup =>
    if s.res r = none then
      some { setRes r ⟨func, id, backup, none, false, false, 0⟩ s with live := insert r s.live }
    else none
  | .reserve o noBackup r =>
    match s.res r with
    | none => none
    | some R =>
      let f := (vmwResourceReserve o noBackup r (R, s)).2
      some (setRes r f.1 f.2)
  | .unreserve switch r => some (unreserveAt switch r s)
  | .validate os r =>
    match s.res r with
    | none => none
    | some R =>
      if r ∈ s.lru R.func.resType then none else (vmwResourceValidate os r s).map (·.2)
  | .evict o ty => (evictFirst o ty s).map (·.2)
  | .moveOut o b => some (vmwResourceUnbindList o (s.resList b) s)
  | .pin o r => (vmwResourcePin o r s).map (·.2)
  | .unpin r => vmwResourceUnpin r s
  | .otherPin b pin =>
    let t := vmwBoPinReserved b pin s
    some { t with
      otherPins := Function.update s.otherPins b (s.otherPins b + if pin then 1 else -1) }

end Vmwgfx.Resources

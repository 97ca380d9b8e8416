import Vmwgfx.ResourceLru

set_option autoImplicit false

/-!
# Reservation of the resources of a submission

`vmw_validation_prepare` reserves the resources of a validation context, reserves and validates
the buffers and validates the resources. Whether a buffer can be registered is an argument, as
are the outcomes of what is not done here, and the buffers that are moved out of MOB memory
meanwhile. A resource that fails does not stop the others from being put back.
-/
namespace Vmwgfx.Reservations
open ExecbufState (Errno)
open LabelledRuns Resources

structure ResNode where
  res : ℕ
  noBufferNeeded : Bool
  reserved : Bool
  switchingBackup : Bool
  newBackup : Option ℕ
  deriving DecidableEq, Repr

structure ValContext where
  resourceList : List ResNode
  resourceCtxList : List ResNode
  deriving DecidableEq, Repr

def ValContext.splice (c : ValContext) : ValContext := ⟨c.resourceCtxList ++ c.resourceList, []⟩

/-- The buffers that are moved out of MOB memory, with the outcomes for their resources. -/
abbrev Moves := List ((ℕ → Option Errno × List ℕ) × ℕ)

def moveOuts : Moves → ResDev → ResDev
  | [], s => s
  | (o, b) :: ms, s => moveOuts ms (vmwResourceUnbindList o (s.resList b) s)

structure ReserveOut where
  moved : Moves
  alloc : Except Errno ℕ
  addBo : Option Errno

def reserveAt (o : Except Errno ℕ) (noBackup : Bool) (r : ℕ) (s : ResDev) :
    Option Errno × ResDev :=
  match s.res r with
  | none => (none, s)
  | some R =>
    let f := vmwResourceReserve o noBackup r (R, s)
    (f.1, setRes r f.2.1 f.2.2)

def backupAt (r : ℕ) (s : ResDev) : Option ℕ := (s.res r).bind Res.backup

def reserveNode (o : ReserveOut) (v : ResNode) (s : ResDev) : Option Errno × ResNode × ResDev :=
  match reserveAt o.alloc v.noBufferNeeded v.res (moveOuts o.moved s) with
  | (some e, t) => (some e, v, t)
  | (none, t) =>
    (if (backupAt v.res t).isSome then o.addBo else none, { v with reserved := true }, t)

/-- The loop of `vmw_validation_res_reserve`; the outcomes are those of the nodes in turn. -/
def reserveNodes (o : ℕ → ReserveOut) :
    ℕ → List ResNode → ResDev → Option Errno × List ResNode × ResDev
  | _, [], s => (none, [], s)
  | i, v :: vs, s =>
    match reserveNode (o i) v s with
    | (some e, w, t) => (some e, w :: vs, t)
    | (none, w, t) =>
      match reserveNodes o (i + 1) vs t with
      | (ret, ws, u) => (ret, w :: ws, u)

/-- The resource whose own `vmw_resource_reserve` fails. -/
def ownFailure (o : ℕ → ReserveOut) : ℕ → List ResNode → ResDev → Option ℕ
  | _, [], _ => none
  | i, v :: vs, s =>
    if (reserveAt (o i).alloc v.noBufferNeeded v.res (moveOuts (o i).moved s)).1.isSome then
      some v.res
    else
      match reserveNode (o i) v s with
      | (some _, _, _) => none
      | (none, _, t) => ownFailure o (i + 1) vs t

def unreserveNodes (backoff : Bool) : List ResNode → ResDev → ResDev
  | [], s => s
  | v :: vs, s =>
    let switch := if !backoff && v.switchingBackup then some v.newBackup else none
    unreserveNodes backoff vs (if v.reserved then unreserveAt switch v.res s else s)

def vmwValidationResUnreserve (backoff : Bool) (c : ValContext) (s : ResDev) :
    ValContext × ResDev :=
  (c.splice, unreserveNodes backoff c.splice.resourceList s)

def backOff (e : Errno) (c : ValContext) (s : ResDev) : Option Errno × ValContext × ResDev :=
  (some e, vmwValidationResUnreserve true c s)

def vmwValidationResReserve (o : ℕ → ReserveOut) (c : ValContext) (s : ResDev) :
    Option Errno × ValContext × ResDev :=
  match reserveNodes o 0 c.splice.resourceList s with
  | (some e, vs, t) => backOff e ⟨vs, []⟩ t
  | (none, vs, t) => (none, ⟨vs, []⟩, t)

structure NodeOut where
  moved : Moves
  rounds : List Round
  addBo : Option Errno

/-- `vmw_validation_res_validate`. There is no result while a resource is still validated. -/
def vmwValidationResValidate (o : ℕ → NodeOut) :
    ℕ → List ResNode → ResDev → Option (Option Errno × ResDev)
  | _, [], s => some (none, s)
  | i, v :: vs, s =>
    match vmwResourceValidate (o i).rounds v.res (moveOuts (o i).moved s) with
    | none => none
    | some (some e, t) => some (some e, t)
    | some (none, t) =>
      -- the resource has switched its buffer
      if (backupAt v.res s).isSome && (backupAt v.res t).isSome &&
          backupAt v.res s ≠ backupAt v.res t && (o i).addBo.isSome then
        some ((o i).addBo, t)
      else vmwValidationResValidate o (i + 1) vs t

structure PrepareOut where
  interrupted : Bool
  reserve : ℕ → ReserveOut
  boReserve : Option Errno
  moved : Moves
  boValidate : Option Errno
  validate : ℕ → NodeOut

/-- `vmw_validation_bo_reserve` and `vmw_validation_bo_validate`. -/
def placeBuffers (o : PrepareOut) (s : ResDev) : Option Errno × ResDev :=
  match o.boReserve with
  | some e => (some e, s)
  | none => (o.boValidate, moveOuts o.moved s)

def lockFails (mutex intr : Bool) (o : PrepareOut) : Bool := mutex && intr && o.interrupted

/-- `vmw_validation_prepare`; `mutex` tells whether there is one. -/
def vmwValidationPrepare (mutex intr : Bool) (o : PrepareOut) (c : ValContext) (s : ResDev) :
    Option (Option Errno × ValContext × ResDev) :=
  if lockFails mutex intr o then some (some .erestartsys, c, s)
  else
    match vmwValidationResReserve o.reserve c s with
    | (some e, d, t) => some (some e, d, t)
    | (none, d, t) =>
      match placeBuffers o t with
      | (some e, u) => some (backOff e d u)
      | (none, u) =>
        match vmwValidationResValidate o.validate 0 d.resourceList u with
        | none => none
        | some (some e, w) => some (backOff e d w)
        | some (none, w) => some (none, d, w)

end Vmwgfx.Reservations

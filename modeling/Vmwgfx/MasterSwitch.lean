import Vmwgfx.ExecbufState
import Vmwgfx.LabelledRuns

set_option autoImplicit false

/-!
# Switching masters

`vmw_master_set`, `vmw_master_drop` and `vmw_postclose` with the functions of `drm_auth.c`
and `drm_fops.c` that call them, and the VT locks of `ttm_lock.c`. The calls are serialised
by `master_mutex`. Signals, the hotspot and the SVGA registers are left out.
-/
namespace Vmwgfx.MasterSwitch
open ExecbufState (Errno)
open LabelledRuns

/-- The structures that have a VT lock: `fbdev_master` and the masters. -/
inductive LockName where
  | fbdev
  | master (m : ℕ)
  deriving DecidableEq, Repr

/-- `TTM_VT_LOCK` and `vt_holder`. -/
structure VtLock where
  held : Bool
  holder : Option ℕ
  deriving DecidableEq, Repr

def VtLock.heldBy (l : VtLock) (f : ℕ) : Prop := l.held = true ∧ l.holder = some f

instance (l : VtLock) (f : ℕ) : Decidable (l.heldBy f) := inferInstanceAs (Decidable (_ ∧ _))

/-- `struct drm_file` with its `vmw_fpriv`. `lastDrop` recalls whether `ttm_vt_lock`
    succeeded when the file last dropped its master, until it sets it again. -/
structure DrmFile where
  opened : Bool
  primary : Bool
  master : Option ℕ
  isMaster : Bool
  lockedMaster : Option ℕ
  lastDrop : Option Bool
  deriving DecidableEq, Repr

def DrmFile.closed : DrmFile := ⟨false, false, none, false, none, none⟩

/-- `bug` tells that a `BUG_ON` has fired, `badUnlock` that a VT lock was unlocked which
    was not held. -/
structure MasterDev where
  file : ℕ → DrmFile
  devMaster : Option ℕ
  activeMaster : Option LockName
  lock : LockName → VtLock
  nextMaster : ℕ
  bug : Bool
  badUnlock : Bool

def init : MasterDev :=
  ⟨fun _ => .closed, none, some .fbdev, fun _ => ⟨false, none⟩, 0, false, false⟩

section Driver

def modFile (f : ℕ) (g : DrmFile → DrmFile) (s : MasterDev) : MasterDev :=
  { s with file := Function.update s.file f (g (s.file f)) }

def setLock (n : LockName) (l : VtLock) (s : MasterDev) : MasterDev :=
  { s with lock := Function.update s.lock n l }

/-- `ttm_vt_lock`; the lock is taken first and given back when its object cannot be made. -/
def ttmVtLock (n : LockName) (f : ℕ) (ret : Option Errno) (s : MasterDev) : MasterDev :=
  setLock n (if ret.isNone then ⟨true, some f⟩ else { s.lock n with held := false }) s

/-- `ttm_vt_unlock`: the object of a lock that is not held is not found, or is another. -/
def ttmVtUnlock (n : LockName) (s : MasterDev) : MasterDev :=
  if (s.lock n).held then setLock n { s.lock n with held := false } s
  else { s with badUnlock := true }

def bugOn (cond : Bool) (s : MasterDev) : MasterDev := { s with bug := s.bug || cond }

/-- The first part of `vmw_master_set`, which takes the lock of the active master. -/
def lockActive (f : ℕ) (ret : Option Errno) (s : MasterDev) : Option Errno × MasterDev :=
  match s.activeMaster with
  | none => (none, s)
  | some active =>
    let t := ttmVtLock active f ret (bugOn (active != .fbdev) s)
    if ret.isSome then (ret, t) else (none, { t with activeMaster := none })

/-- `vmw_master_set`, where `m` is the master of file `f`. -/
def vmwMasterSet (f m : ℕ) (fromOpen : Bool) (ret : Option Errno) (s : MasterDev) :
    Option Errno × MasterDev :=
  match lockActive f ret s with
  | (some e, t) => (some e, t)
  | (none, t) =>
    let t :=
      if fromOpen then t
      else
        let t := ttmVtUnlock (.master m) t
        let t := bugOn ((t.file f).lockedMaster != some m) t
        modFile f (fun F => { F with lockedMaster := none, lastDrop := none }) t
    (none, { t with activeMaster := some (.master m) })

def vmwMasterDrop (f m : ℕ) (ret : Option Errno) (s : MasterDev) : MasterDev :=
  let t := modFile f (fun F => { F with lockedMaster := some m, lastDrop := some ret.isNone }) s
  let t := ttmVtLock (.master m) f ret t
  let t := if ret.isSome then modFile f (fun F => { F with lockedMaster := none }) t else t
  ttmVtUnlock .fbdev { t with activeMaster := some .fbdev }

/-- `ttm_object_file_release` gives back the locks that the file still holds. -/
def objectFileRelease (f : ℕ) (s : MasterDev) : MasterDev :=
  { s with
    lock := fun n => if (s.lock n).heldBy f then { s.lock n with held := false } else s.lock n }

/-- `vmw_postclose`, after which the file is freed. -/
def vmwPostclose (f : ℕ) (s : MasterDev) : MasterDev :=
  let t :=
    match (s.file f).lockedMaster with
    | none => s
    | some m => ttmVtUnlock (.master m) s
  modFile f (fun _ => .closed) (objectFileRelease f t)

end Driver

section Core

/-- What the calls inside `drm_new_set_master` do: the allocation of the master, that of
    its `vmw_master`, and `ttm_vt_lock`. -/
structure SetEnds where
  create : Bool
  masterCreate : Bool
  lock : Option Errno
  deriving DecidableEq, Repr

def drmSetMaster (f m : ℕ) (newMaster : Bool) (ret : Option Errno) (s : MasterDev) :
    Option Errno × MasterDev :=
  let r := vmwMasterSet f m newMaster ret { s with devMaster := some m }
  if r.1.isSome then (r.1, { r.2 with devMaster := none }) else r

/-- The new master of file `f`, with a lock of its own. -/
def drmMasterCreate (f : ℕ) (s : MasterDev) : MasterDev :=
  modFile f (fun F => { F with master := some s.nextMaster })
    (setLock (.master s.nextMaster) ⟨false, none⟩ { s with nextMaster := s.nextMaster + 1 })

/-- A failure restores the old master, but not `is_master`. -/
def drmNewSetMaster (f : ℕ) (o : SetEnds) (s : MasterDev) : Option Errno × MasterDev :=
  let old := (s.file f).master
  let m := s.nextMaster
  let restore := modFile f fun F => { F with master := old }
  if !o.create then (some .enomem, s)
  else
    let t := drmMasterCreate f s
    if !o.masterCreate then (some .enomem, restore t)
    else
      let r := drmSetMaster f m true o.lock (modFile f (fun F => { F with isMaster := true }) t)
      if r.1.isSome then (r.1, restore r.2) else r

def drmIsCurrentMaster (f : ℕ) (s : MasterDev) : Bool :=
  (s.file f).isMaster && decide ((s.file f).master = s.devMaster)

def drmSetmasterIoctl (f : ℕ) (o : SetEnds) (s : MasterDev) : Option Errno × MasterDev :=
  if drmIsCurrentMaster f s then (none, s)
  else if s.devMaster.isSome then (some .einval, s)
  else
    match (s.file f).master with
    | none => (some .einval, s)
    | some m => if !(s.file f).isMaster then drmNewSetMaster f o s else drmSetMaster f m false o.lock s

def drmDropMaster (f m : ℕ) (ret : Option Errno) (s : MasterDev) : MasterDev :=
  { vmwMasterDrop f m ret s with devMaster := none }

def drmDropmasterIoctl (f : ℕ) (ret : Option Errno) (s : MasterDev) : Option Errno × MasterDev :=
  if !drmIsCurrentMaster f s then (some .einval, s)
  else
    match s.devMaster with
    | none => (some .einval, s)
    | some m => (none, drmDropMaster f m ret s)

def drmMasterOpen (f : ℕ) (o : SetEnds) (s : MasterDev) : Option Errno × MasterDev :=
  if s.devMaster.isNone then drmNewSetMaster f o s
  else (none, modFile f (fun F => { F with master := s.devMaster }) s)

/-- `drm_open_helper` after `vmw_driver_open`. -/
def drmOpenHelper (f : ℕ) (primary : Bool) (o : SetEnds) (s : MasterDev) : MasterDev :=
  let t := modFile f (fun _ => ⟨true, primary, none, false, none, none⟩) s
  if primary then
    let r := drmMasterOpen f o t
    if r.1.isSome then vmwPostclose f r.2 else r.2
  else t

def drmMasterRelease (f : ℕ) (ret : Option Errno) (s : MasterDev) : MasterDev :=
  let t :=
    if drmIsCurrentMaster f s then
      match s.devMaster with
      | none => s
      | some m => drmDropMaster f m ret s
    else s
  modFile f (fun F => { F with master := none }) t

def drmRelease (f : ℕ) (ret : Option Errno) (s : MasterDev) : MasterDev :=
  vmwPostclose f (if (s.file f).primary then drmMasterRelease f ret s else s)

inductive Op where
  | open (f : ℕ) (primary : Bool) (o : SetEnds)
  | setMaster (f : ℕ) (o : SetEnds)
  | dropMaster (f : ℕ) (ret : Option Errno)
  | close (f : ℕ) (ret : Option Errno)
  deriving DecidableEq, Repr

/-- The calls of open files, until a `BUG_ON` fires. -/
def step (s : MasterDev) : Op → Option MasterDev
  | .open f primary o =>
    if !s.bug && !(s.file f).opened then some (drmOpenHelper f primary o s) else none
  | .setMaster f o =>
    if !s.bug && (s.file f).opened then some (drmSetmasterIoctl f o s).2 else none
  | .dropMaster f ret =>
    if !s.bug && (s.file f).opened then some (drmDropmasterIoctl f ret s).2 else none
  | .close f ret => if !s.bug && (s.file f).opened then some (drmRelease f ret s) else none

end Core

end Vmwgfx.MasterSwitch

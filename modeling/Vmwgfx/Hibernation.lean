import Vmwgfx.ExecbufState
import Vmwgfx.LabelledRuns

set_option autoImplicit false

/-!
# Hibernation

`vmw_pm_freeze` and `vmw_pm_restore`, which is also the thaw call, with the two halves of
the take-down of the device and of its set-up. The PM core restores a device that it has frozen.
An error of a restore is only logged, so the next hibernation freezes that device again, with
what the failed restore has left.
-/
namespace Vmwgfx.Hibernation
open ExecbufState (Errno)
open LabelledRuns

/-- `has_mob`, `enable_fb`, and whether there is an `fb_info`. -/
structure Config where
  hasMob : Bool
  enableFb : Bool
  fbInfo : Bool
  deriving DecidableEq, Repr

inductive Phase where
  | running
  | frozen
  | lost
  deriving DecidableEq, Repr

/-- The pointer to the command buffer manager; it is not reset when the manager is destroyed. -/
inductive Cman where
  | null
  | manager (hasPool : Bool)
  | dangling
  deriving DecidableEq, Repr

/-- What makes the device usable: the object tables, the command buffer pool, the dummy query
    buffer, the FIFO resources that are counted apart from those on the device, fbdev and the
    modes that are set. -/
structure Usable where
  otables : Bool
  pool : Bool
  dummyQueryBo : Bool
  fifoBalance : ℤ
  fbActive : Bool
  kms : ℕ
  deriving DecidableEq, Repr

/-- The fields of `struct vmw_private` that hibernation reads or writes; `hwResources` counts
    the resources that the device has. `saved` recalls what there was when the device was frozen,
    `ret` what the last call returned, and `fault` that a destroyed manager or a missing object
    table was used. -/
structure PmDev where
  phase : Phase
  suspendLock : Bool
  suspendLocked : Bool
  otables : Bool
  cman : Cman
  hasDx : Bool
  dummyQueryBo : Bool
  fifo : Bool
  fifoDown : Bool
  svga : Bool
  numFifoResources : ℤ
  hwResources : ℕ
  fbActive : Bool
  kms : ℕ
  suspendState : Option ℕ
  saved : Usable
  ret : Option Errno
  fault : Bool
  deriving DecidableEq, Repr

def usable (s : PmDev) : Usable :=
  ⟨s.otables, s.cman == .manager true, s.dummyQueryBo, s.numFifoResources - s.hwResources,
    s.fbActive, s.kms⟩

def fbShare (c : Config) : ℤ := if c.enableFb then 1 else 0

/-- The driver is loaded, with or without a command buffer pool. -/
def init (c : Config) (pool hasDx : Bool) (kms : ℕ) : PmDev :=
  { phase := .running, suspendLock := false, suspendLocked := false, otables := c.hasMob,
    cman := if pool then .manager true else .null, hasDx := hasDx, dummyQueryBo := true, fifo := true,
    fifoDown := false, svga := c.enableFb, numFifoResources := fbShare c, hwResources := 0,
    fbActive := c.enableFb && c.fbInfo, kms := kms, suspendState := none,
    saved := ⟨false, false, false, 0, false, 0⟩, ret := none, fault := false }

section Halves
variable (c : Config)

/-- What `vmw_otables_setup` and `vmw_cmdbuf_set_pool_size` return. -/
structure LateEnds where
  otables : Option Errno
  pool : Option Errno
  deriving DecidableEq, Repr

/-- `vmw_cmdbuf_set_pool_size`, after whose failure the manager is destroyed. -/
def setPoolSize (ret : Option Errno) (s : PmDev) : PmDev :=
  match s.cman with
  | .null => s
  | .manager hasPool => { s with cman := if hasPool || ret.isSome then .null else .manager true }
  | .dangling => { s with fault := true }

def vmwCmdbufRemovePool (s : PmDev) : PmDev :=
  match s.cman with
  | .null => s
  | .manager _ => { s with cman := .manager false }
  | .dangling => { s with fault := true }

def vmwCmdbufManDestroy (s : PmDev) : PmDev :=
  match s.cman with
  | .null => s
  | .manager _ => { s with cman := .dangling }
  | .dangling => { s with fault := true }

/-- `vmw_otables_takedown`, which reserves the buffer of the tables without looking whether there
    is one. -/
def vmwOtablesTakedown (s : PmDev) : PmDev :=
  { s with otables := false, fault := s.fault || !s.otables }

def vmwRequestDeviceLate (o : LateEnds) (s : PmDev) : Option Errno × PmDev :=
  if c.hasMob && o.otables.isSome then (o.otables, s)
  else (none, setPoolSize o.pool (if c.hasMob then { s with otables := true } else s))

structure RequestEnds where
  fifo : Option Errno
  cman : Bool
  late : LateEnds
  dummy : Option Errno
  deriving DecidableEq, Repr

/-- `vmw_fence_fifo_down` and `vmw_fifo_release`. -/
def fifoRelease (s : PmDev) : PmDev := { s with fifoDown := true, fifo := false }

def vmwRequestDevice (o : RequestEnds) (s : PmDev) : Option Errno × PmDev :=
  if o.fifo.isSome then (o.fifo, s)
  else
    let t :=
      { s with
        fifo := true
        fifoDown := false
        cman := if o.cman then .manager false else .null
        hasDx := s.hasDx && o.cman }
    match vmwRequestDeviceLate c o.late t with
    | (some e, t) => (some e, fifoRelease t)
    | (none, t) =>
      if o.dummy.isSome then
        let t := vmwCmdbufRemovePool t
        let t := if c.hasMob then vmwOtablesTakedown t else t
        (o.dummy, fifoRelease (vmwCmdbufManDestroy t))
      else (none, { t with dummyQueryBo := true })

def vmwReleaseDeviceEarly (s : PmDev) : PmDev :=
  let t := vmwCmdbufRemovePool { s with dummyQueryBo := false }
  if c.hasMob then vmwOtablesTakedown t else t

def vmwReleaseDeviceLate (s : PmDev) : PmDev := fifoRelease (vmwCmdbufManDestroy s)

def vmwFbOff (s : PmDev) : PmDev := if c.fbInfo then { s with fbActive := false } else s

def vmwFbOn (s : PmDev) : PmDev := if c.fbInfo then { s with fbActive := true } else s

/-- `vmw_kms_suspend`: the modes are recalled and everything is disabled, or nothing is
    changed. -/
def vmwKmsSuspend (ret : Option Errno) (s : PmDev) : PmDev :=
  if ret.isSome then { s with suspendState := none }
  else { s with suspendState := some s.kms, kms := 0 }

/-- `vmw_kms_resume`, whose result is not looked at. -/
def vmwKmsResume (ret : Option Errno) (s : PmDev) : PmDev :=
  match s.suspendState with
  | none => s
  | some k => { s with suspendState := none, kms := if ret.isSome then s.kms else k }

/-- `vmw_resource_evict_all` and the eviction of the MOBs leave at most `left` resources. -/
def evictAll (left : ℕ) (s : PmDev) : PmDev :=
  { s with
    hwResources := min left s.hwResources
    numFifoResources := s.numFifoResources - s.hwResources + min left s.hwResources }

def fifoResource (k : ℤ) (s : PmDev) : PmDev :=
  if c.enableFb then { s with numFifoResources := s.numFifoResources + k } else s

end Halves

section Calls
variable (c : Config)

structure FreezeEnds where
  kmsSuspend : Option Errno
  left : ℕ
  late : LateEnds
  kmsResume : Option Errno
  deriving DecidableEq, Repr

/-- The end of `vmw_pm_freeze` and of `vmw_pm_restore`: the lock is given up, modes and
    fbdev are resumed. -/
def unlockResume (kmsResume : Option Errno) (s : PmDev) : PmDev :=
  let t := vmwKmsResume kmsResume { s with suspendLocked := false, suspendLock := false }
  if c.enableFb then vmwFbOn c t else t

def vmwPmFreeze (o : FreezeEnds) (s : PmDev) : Option Errno × PmDev :=
  let t := vmwKmsSuspend o.kmsSuspend { s with suspendLock := false }
  if o.kmsSuspend.isSome then (o.kmsSuspend, { t with suspendLock := true })
  else
    let t := if c.enableFb then vmwFbOff c t else t
    let t := vmwReleaseDeviceEarly c (evictAll o.left { t with suspendLock := true })
    let t := fifoResource c (-1) t
    if t.numFifoResources ≠ 0 then
      -- the error path: `vmw_request_device_late` has to make up for the early release
      let t := (vmwRequestDeviceLate c o.late (fifoResource c 1 t)).2
      (some (.other 16), unlockResume c o.kmsResume t)
    else
      (none, { vmwReleaseDeviceLate { t with fifoDown := true, svga := false } with
        phase := .frozen
        saved := usable s })

structure RestoreEnds where
  request : RequestEnds
  kmsResume : Option Errno
  deriving DecidableEq, Repr

def vmwPmRestore (o : RestoreEnds) (s : PmDev) : Option Errno × PmDev :=
  match vmwRequestDevice c o.request (fifoResource c 1 s) with
  | (some e, t) => (some e, { t with phase := .lost })
  | (none, t) =>
    let t := if c.enableFb then { t with svga := true } else t
    (none, { unlockResume c o.kmsResume { t with fifoDown := false } with phase := .running })

inductive Op where
  /-- `PM_HIBERNATION_PREPARE`. -/
  | prepare
  /-- `PM_POST_HIBERNATION` or `PM_POST_RESTORE`. -/
  | post
  | freeze (o : FreezeEnds)
  /-- `restore` or `thaw`. -/
  | restore (o : RestoreEnds)
  /-- What runs while it is not locked out leaves `n` resources and the modes `k`. -/
  | work (n k : ℕ)
  deriving DecidableEq, Repr

def returned (r : Option Errno × PmDev) : PmDev := { r.2 with ret := r.1 }

def step (s : PmDev) : Op → Option PmDev
  | .prepare => some (returned (none, { s with suspendLock := true, suspendLocked := true }))
  | .post =>
    some (returned (none,
      if s.suspendLocked then { s with suspendLock := false, suspendLocked := false } else s))
  | .freeze o => if s.phase ≠ .frozen then some (returned (vmwPmFreeze c o s)) else none
  | .restore o => if s.phase = .frozen then some (returned (vmwPmRestore c o s)) else none
  | .work n k =>
    if s.phase = .running ∧ s.suspendLock = false then
      some (returned (none,
        { s with
          hwResources := n
          numFifoResources := s.numFifoResources - s.hwResources + n
          kms := k }))
    else none

end Calls

/-- `vmw_request_device` succeeds. -/
def requestSucceeds (c : Config) (o : RequestEnds) : Prop :=
  o.fifo = none ∧ (c.hasMob = true → o.late.otables = none) ∧ o.dummy = none

/-- A restore gets back the pool that there was, and the modes if any were set. -/
def getsBack (u : Usable) (o : RestoreEnds) : Prop :=
  (u.pool = true → o.request.cman = true ∧ o.request.late.pool = none) ∧
    (u.kms ≠ 0 → o.kmsResume = none)

/-- What an early release takes down is there. -/
def Intact (c : Config) (s : PmDev) : Prop :=
  s.cman ≠ .dangling ∧ (c.hasMob = true → s.otables = true)

instance (c : Config) (s : PmDev) : Decidable (Intact c s) :=
  inferInstanceAs (Decidable (_ ∧ _))

/-- A freeze finds the lock held for it and, if the modes can be suspended, all that it takes
    down, and it evicts every resource; a restore that succeeds gets back what there was. -/
def resumesWhole (c : Config) (s : PmDev) : Op → Prop
  | .freeze o => s.suspendLocked = true ∧
      (o.kmsSuspend = none → Intact c s ∧ min o.left s.hwResources = 0)
  | .restore o => requestSucceeds c o.request → getsBack s.saved o
  | _ => True

instance (c : Config) : ∀ s a, Decidable (resumesWhole c s a)
  | s, .freeze o => inferInstanceAs (Decidable (s.suspendLocked = true ∧
      (o.kmsSuspend = none → Intact c s ∧ min o.left s.hwResources = 0)))
  | s, .restore o => inferInstanceAs (Decidable
      (o.request.fifo = none ∧ (c.hasMob = true → o.request.late.otables = none) ∧
        o.request.dummy = none →
        (s.saved.pool = true → o.request.cman = true ∧ o.request.late.pool = none) ∧
          (s.saved.kms ≠ 0 → o.kmsResume = none)))
  | _, .prepare => .isTrue trivial
  | _, .post => .isTrue trivial
  | _, .work _ _ => .isTrue trivial

/-- Everything that a usable device has is there, with the pool and the modes that `u` names. If
    the device was usable then, it is as it was, but that it may have got a pool. -/
structure Reestablished (c : Config) (u : Usable) (t : PmDev) : Prop where
  otables : t.otables = c.hasMob
  pool : u.pool = true → t.cman = .manager true
  dummyQueryBo : t.dummyQueryBo = true
  fifoBalance : t.numFifoResources - t.hwResources = u.fifoBalance
  fbActive : t.fbActive = (c.enableFb && c.fbInfo)
  kms : t.kms = u.kms
  same : u.dummyQueryBo = true → { usable t with pool := u.pool } = u

/-- What a device that is not frozen keeps, whether its last restore has succeeded or not. -/
structure Awake (c : Config) (s : PmDev) : Prop where
  count : s.numFifoResources = s.hwResources + fbShare c
  otables : s.otables = true → c.hasMob = true
  fbActive : s.fbActive = true → (c.enableFb && c.fbInfo) = true
  whole : s.dummyQueryBo = true → s.otables = c.hasMob ∧ s.fbActive = (c.enableFb && c.fbInfo)

structure Up (c : Config) (s : PmDev) : Prop where
  otables : s.otables = c.hasMob
  cman : s.cman ≠ .dangling
  dummyQueryBo : s.dummyQueryBo = true
  count : s.numFifoResources = s.hwResources + fbShare c
  fbActive : s.fbActive = (c.enableFb && c.fbInfo)

structure Lost (c : Config) (s : PmDev) : Prop where
  otables : s.otables = false
  dummyQueryBo : s.dummyQueryBo = false
  count : s.numFifoResources = fbShare c
  hwResources : s.hwResources = 0
  fbActive : s.fbActive = false

structure Down (c : Config) (s : PmDev) : Prop where
  otables : s.otables = false
  dummyQueryBo : s.dummyQueryBo = false
  count : s.numFifoResources = 0
  hwResources : s.hwResources = 0
  fbActive : s.fbActive = false
  kms : s.kms = 0
  suspendState : s.suspendState = some s.saved.kms
  balance : s.saved.fifoBalance = fbShare c
  saved : s.saved.dummyQueryBo = true →
    s.saved.otables = c.hasMob ∧ s.saved.fbActive = (c.enableFb && c.fbInfo)

structure Inv (c : Config) (s : PmDev) : Prop where
  lock : s.suspendLock = s.suspendLocked
  fault : s.fault = false
  up : s.phase = .running → Up c s
  lost : s.phase = .lost → Lost c s
  down : s.phase = .frozen → Down c s

variable {c : Config} {s t : PmDev} {r : Option Errno}

theorem inv_init (c : Config) (pool hasDx : Bool) (kms : ℕ) : Inv c (init c pool hasDx kms) where
  lock := rfl
  fault := rfl
  up _ := ⟨rfl, by cases pool <;> exact Cman.noConfusion, rfl, by simp [init], rfl⟩
  lost h := by cases h
  down h := by cases h

theorem Up.awake (hs : Up c s) : Awake c s :=
  ⟨hs.count, hs.otables ▸ id, hs.fbActive ▸ id, fun _ => ⟨hs.otables, hs.fbActive⟩⟩

theorem Lost.awake (hs : Lost c s) : Awake c s where
  count := by rw [hs.count, hs.hwResources, Nat.cast_zero, zero_add]
  otables h := by cases hs.otables.symm.trans h
  fbActive h := by cases hs.fbActive.symm.trans h
  whole h := by cases hs.dummyQueryBo.symm.trans h

theorem Inv.awake (hs : Inv c s) (hphase : s.phase ≠ .frozen) : Awake c s := by
  cases h : s.phase with
  | running => exact (hs.up h).awake
  | lost => exact (hs.lost h).awake
  | frozen => exact absurd h hphase

theorem fifoResource_eq (c : Config) (k : ℤ) (s : PmDev) :
    fifoResource c k s = { s with numFifoResources := s.numFifoResources + k * fbShare c } := by
  unfold fifoResource fbShare
  split_ifs <;> simp

theorem removePool_dangling (s : PmDev) :
    (vmwCmdbufRemovePool s).cman = .dangling ↔ s.cman = .dangling := by
  unfold vmwCmdbufRemovePool
  cases h : s.cman <;> simp [h]

theorem manDestroy_eq (s : PmDev) : vmwCmdbufManDestroy s =
    { s with
      cman := (vmwCmdbufManDestroy s).cman
      fault := s.fault || s.cman == .dangling } := by
  unfold vmwCmdbufManDestroy
  obtain ⟨-, -, -, -, cman, -⟩ := s
  cases cman <;> simp

theorem releaseDeviceEarly_eq (c : Config) (s : PmDev) : vmwReleaseDeviceEarly c s =
    { s with
      dummyQueryBo := false
      cman := (vmwCmdbufRemovePool s).cman
      otables := s.otables && !c.hasMob
      fault := s.fault || !decide (Intact c s) } := by
  have hintact : decide (Intact c s) = (!decide (s.cman = .dangling) && (!c.hasMob || s.otables)) := by
    rw [Bool.eq_iff_iff]
    simp [Intact, Bool.not_eq_true, imp_iff_not_or]
  rw [hintact]
  unfold vmwReleaseDeviceEarly vmwCmdbufRemovePool vmwOtablesTakedown
  cases c.hasMob <;> cases hcman : s.cman <;> simp [hcman]

/-- What a set-up that ends without its dummy query buffer takes down again. -/
theorem outNoQueryBo_eq (hcman : s.cman ≠ .dangling) (hotables : s.otables = c.hasMob) :
    ∃ cman, vmwCmdbufManDestroy (if c.hasMob then vmwOtablesTakedown (vmwCmdbufRemovePool s)
      else vmwCmdbufRemovePool s) = { s with cman := cman, otables := false } := by
  unfold vmwCmdbufManDestroy vmwOtablesTakedown vmwCmdbufRemovePool
  obtain ⟨_, _, _, otables, cman, _⟩ := s
  dsimp only at hcman hotables ⊢
  subst hotables
  cases c.hasMob <;> cases cman <;> simp at hcman ⊢

theorem requestDeviceLate_eq (o : LateEnds) {b : Bool}
    (hcman : s.cman = if b then .manager false else .null) (hdown : s.otables = false) :
    vmwRequestDeviceLate c o s = if c.hasMob && o.otables.isSome then (o.otables, s)
      else (none, { s with
        otables := c.hasMob
        cman := if b && o.pool.isNone then .manager true else .null }) := by
  unfold vmwRequestDeviceLate setPoolSize
  cases s
  dsimp only at hcman hdown ⊢
  subst hcman hdown
  cases c.hasMob <;> cases b <;> cases o.pool <;> rfl

theorem requestDeviceLate_dummyQueryBo (o : LateEnds) (s : PmDev) :
    (vmwRequestDeviceLate c o s).2.dummyQueryBo = s.dummyQueryBo := by
  unfold vmwRequestDeviceLate setPoolSize
  split_ifs
  · rfl
  all_goals cases s.cman <;> rfl

theorem unlockResume_dummyQueryBo (ret : Option Errno) (s : PmDev) :
    (unlockResume c ret s).dummyQueryBo = s.dummyQueryBo := by
  unfold unlockResume vmwFbOn vmwKmsResume
  split_ifs
  all_goals cases s.suspendState <;> rfl

theorem Awake.fbOff (hs : Awake c s) :
    (if c.enableFb then vmwFbOff c (vmwKmsSuspend none { s with suspendLock := false })
      else vmwKmsSuspend none { s with suspendLock := false }) =
      { s with suspendLock := false, suspendState := some s.kms, kms := 0, fbActive := false } := by
  have hactive := hs.fbActive
  unfold vmwFbOff vmwKmsSuspend
  cases hfb : c.enableFb <;> cases hinfo : c.fbInfo <;> simp [hfb, hinfo] at hactive ⊢
  all_goals rw [hactive]

/-- How a freeze ends: the modes could not be suspended, resources were left, or the device is
    frozen, which uses what is missing unless everything is there. -/
theorem Awake.freeze_cases (hs : Awake c s) (hfault : s.fault = false) (o : FreezeEnds) :
    (∃ e, o.kmsSuspend = some e ∧
      vmwPmFreeze c o s = (some e, { s with suspendState := none, suspendLock := true })) ∨
    (o.kmsSuspend = none ∧ min o.left s.hwResources ≠ 0 ∧ ∃ e, (vmwPmFreeze c o s).1 = some e ∧
      (vmwPmFreeze c o s).2.dummyQueryBo = false) ∨
    (o.kmsSuspend = none ∧ min o.left s.hwResources = 0 ∧ ∃ t, vmwPmFreeze c o s = (none, t) ∧
      t.phase = .frozen ∧ t.suspendLock = true ∧ t.suspendLocked = s.suspendLocked ∧
      (t.fault = false ↔ Intact c s) ∧ Down c t ∧ t.saved = usable s) := by
  cases hkms : o.kmsSuspend with
  | some e =>
    refine .inl ⟨e, rfl, ?_⟩
    simp only [vmwPmFreeze, hkms, vmwKmsSuspend, Option.isSome_some, if_true]
  | none =>
    have hcount := hs.count
    unfold vmwPmFreeze
    simp only [hkms, Option.isSome_none, Bool.false_eq_true, if_false]
    rw [hs.fbOff]
    simp only [fifoResource_eq, evictAll, releaseDeviceEarly_eq, hcount]
    by_cases hleft : min o.left s.hwResources = 0
    · refine .inr (.inr ⟨trivial, hleft, ?_⟩)
      rw [if_neg (by rw [hleft]; push_cast; ring_nf; simp)]
      simp only [vmwReleaseDeviceLate, fifoRelease]
      rw [manDestroy_eq]
      refine ⟨_, rfl, rfl, rfl, rfl, ?_, ⟨?_, rfl, ?_, hleft, rfl, rfl, rfl, ?_, ?_⟩, rfl⟩
      · simp only [hfault, Bool.false_or, Bool.or_eq_false_iff, Bool.not_eq_false',
          decide_eq_true_eq, beq_eq_false_iff_ne, ne_eq, removePool_dangling]
        exact and_iff_left_of_imp fun h => h.1
      · have hotables := hs.otables
        cases hmob : c.hasMob <;> simp [hmob] at hotables ⊢
        exact hotables
      · simp only [hleft]
        push_cast
        ring
      · simp only [usable, hcount]
        ring
      · exact hs.whole
    · refine .inr (.inl ⟨trivial, hleft, ?_⟩)
      rw [if_pos (by push_cast; omega)]
      refine ⟨_, rfl, ?_⟩
      rw [unlockResume_dummyQueryBo, requestDeviceLate_dummyQueryBo]

/-- `vmw_request_device` on a device that is down: what it has set up is taken down again, but
    that the manager may be left, or everything is set up but the command buffers, which may be
    missing. -/
theorem requestDevice_cases (o : RequestEnds) (s : PmDev) (hdown : s.otables = false) :
    (¬ requestSucceeds c o ∧ ∃ e t, vmwRequestDevice c o s = (some e, t) ∧
      t.suspendLock = s.suspendLock ∧ t.suspendLocked = s.suspendLocked ∧ t.fault = s.fault ∧
      t.otables = false ∧ t.dummyQueryBo = s.dummyQueryBo ∧
      t.numFifoResources = s.numFifoResources ∧ t.hwResources = s.hwResources ∧
      t.fbActive = s.fbActive) ∨
    requestSucceeds c o ∧ ∃ hasDx, vmwRequestDevice c o s =
      (none, { s with
        fifo := true
        fifoDown := false
        otables := c.hasMob
        cman := if o.cman && o.late.pool.isNone then .manager true else .null
        hasDx := hasDx
        dummyQueryBo := true }) := by
  unfold vmwRequestDevice requestSucceeds
  cases hfifo : o.fifo with
  | some e =>
    exact .inl ⟨fun h => Option.some_ne_none e h.1, e, s, rfl, rfl, rfl, rfl, hdown, rfl, rfl, rfl, rfl⟩
  | none =>
    simp only [Option.isSome_none, Bool.false_eq_true, if_false]
    rw [requestDeviceLate_eq o.late (by exact rfl) (by exact hdown)]
    by_cases hlate : (c.hasMob && o.late.otables.isSome) = true
    · rw [if_pos hlate]
      simp only [Bool.and_eq_true] at hlate
      obtain ⟨e, he⟩ := Option.isSome_iff_exists.1 hlate.2
      rw [he]
      exact .inl ⟨fun h => Option.some_ne_none e (h.2.1 hlate.1), e, _, rfl, rfl, rfl, rfl, hdown, rfl,
        rfl, rfl, rfl⟩
    · rw [if_neg hlate]
      have hok : c.hasMob = true → o.late.otables = none := fun hmob => by
        simpa [hmob] using hlate
      cases hdummy : o.dummy with
      | some e =>
        simp only [Option.isSome_some, if_true]
        obtain ⟨cman, hcman⟩ := outNoQueryBo_eq (c := c) (s := { s with
          fifo := true
          fifoDown := false
          otables := c.hasMob
          cman := if o.cman && o.late.pool.isNone then .manager true else .null
          hasDx := s.hasDx && o.cman }) (by dsimp only; split_ifs <;> exact Cman.noConfusion) rfl
        rw [hcman]
        exact .inl ⟨fun h => Option.some_ne_none e h.2.2, e, _, rfl, rfl, rfl, rfl, rfl, rfl, rfl, rfl,
          rfl⟩
      | none =>
        simp only [Option.isSome_none, Bool.false_eq_true, if_false]
        exact .inr ⟨⟨trivial, hok, trivial⟩, s.hasDx && o.cman, rfl⟩

theorem Down.restore_cases (hs : Down c s) (o : RestoreEnds) :
    (¬ requestSucceeds c o.request ∧ ∃ e t, vmwPmRestore c o s = (some e, t) ∧ t.phase = .lost ∧
      t.suspendLock = s.suspendLock ∧ t.suspendLocked = s.suspendLocked ∧ t.fault = s.fault ∧
      Lost c t) ∨
    requestSucceeds c o.request ∧ ∃ t, vmwPmRestore c o s = (none, t) ∧ t.phase = .running ∧
      t.suspendLock = t.suspendLocked ∧ t.fault = s.fault ∧ Up c t ∧ t.hwResources = 0 ∧
      t.cman = (if o.request.cman && o.request.late.pool.isNone then .manager true else .null) ∧
      t.kms = if o.kmsResume.isSome then 0 else s.saved.kms := by
  unfold vmwPmRestore
  rw [fifoResource_eq]
  obtain ⟨hfail, e, t, ht, hlock, hlocked, hfault, hotables, hdummy, hcount, hhw, hactive⟩ |
      ⟨hok, hasDx, ht⟩ := requestDevice_cases (c := c) o.request
    { s with numFifoResources := s.numFifoResources + 1 * fbShare c } hs.otables
  · rw [ht]
    refine .inl ⟨hfail, e, _, rfl, rfl, hlock, hlocked, hfault, hotables,
      hdummy.trans hs.dummyQueryBo, ?_, hhw.trans hs.hwResources, hactive.trans hs.fbActive⟩
    exact hcount.trans (by simp only [hs.count, one_mul, zero_add])
  · rw [ht]
    have hresume : ∀ u : PmDev, u.suspendState = some s.saved.kms → u.kms = 0 → u.fbActive = false →
        unlockResume c o.kmsResume u = { u with
          suspendLock := false
          suspendLocked := false
          suspendState := none
          kms := if o.kmsResume.isSome then 0 else s.saved.kms
          fbActive := c.enableFb && c.fbInfo } := by
      intro u hu hkms hfb
      unfold unlockResume vmwFbOn vmwKmsResume
      cases c.enableFb <;> cases c.fbInfo <;> simp [hu, hkms, hfb]
    have hsvga : ∀ u : PmDev, (if c.enableFb then { u with svga := true } else u) =
        { u with svga := c.enableFb || u.svga } := by
      intro u
      cases c.enableFb <;> rfl
    refine .inr ⟨hok, _, rfl, rfl, ?_⟩
    rw [hsvga, hresume _ (by exact hs.suspendState) (by exact hs.kms) (by exact hs.fbActive)]
    refine ⟨rfl, rfl, ⟨rfl, ?_, rfl, ?_, rfl⟩, hs.hwResources, rfl, rfl⟩
    · dsimp only
      split_ifs <;> exact Cman.noConfusion
    · simp only [hs.count, hs.hwResources]
      push_cast
      ring

theorem Inv.freeze_iff (hs : Inv c s) (hphase : s.phase ≠ .frozen) (o : FreezeEnds)
    (h : vmwPmFreeze c o s = (r, t)) :
    (t.suspendLock = t.suspendLocked ∧ t.fault = false ∧ (r.isSome = true → usable t = usable s)) ↔
      resumesWhole c s (.freeze o) := by
  unfold resumesWhole
  obtain ⟨e, hkms, he⟩ | ⟨hkms, hleft, e, he, hdummy⟩ |
      ⟨hkms, hleft, u, hu, -, hlock, hlocked, hfault, -⟩ :=
    (hs.awake hphase).freeze_cases hs.fault o
  · rw [he] at h
    cases h
    refine ⟨fun hall => ⟨hall.1.symm, fun hnone => ?_⟩, fun hall => ⟨hall.1.symm, hs.fault, fun _ => rfl⟩⟩
    rw [hkms] at hnone
    cases hnone
  · rw [h] at he hdummy
    obtain rfl : r = some e := he
    refine iff_of_false (fun hall => ?_) fun hall => hleft (hall.2 hkms).2
    have hsame := congrArg Usable.dummyQueryBo (hall.2.2 rfl)
    cases hp : s.phase with
    | running =>
      simp only [usable, (hs.up hp).dummyQueryBo] at hsame
      rw [hdummy] at hsame
      cases hsame
    | lost => exact hleft (by rw [(hs.lost hp).hwResources, Nat.min_zero])
    | frozen => exact hphase hp
  · rw [hu] at h
    cases h
    rw [hlock, hlocked, hfault]
    exact ⟨fun hall => ⟨hall.1.symm, fun _ => ⟨hall.2.1, hleft⟩⟩, fun hall =>
      ⟨hall.1.symm, (hall.2 hkms).1, fun hsome => by cases hsome⟩⟩

theorem Inv.restore_iff (hs : Inv c s) (hphase : s.phase = .frozen) (o : RestoreEnds)
    (h : vmwPmRestore c o s = (none, t)) :
    Reestablished c s.saved t ↔ resumesWhole c s (.restore o) := by
  have hdown := hs.down hphase
  obtain ⟨-, e, u, hu, -⟩ | ⟨hok, u, hu, -, -, -, hup, hhw, hcman, hkms⟩ := hdown.restore_cases o
  · rw [hu] at h
    cases h
  · rw [hu] at h
    cases h
    have hpool : t.cman = .manager true ↔ o.request.cman = true ∧ o.request.late.pool = none := by
      rw [hcman]
      simp
    have hmodes : t.kms = s.saved.kms ↔ (s.saved.kms ≠ 0 → o.kmsResume = none) := by
      rw [hkms]
      cases o.kmsResume <;> simp [eq_comm]
    have hbalance : t.numFifoResources - t.hwResources = s.saved.fifoBalance := by
      rw [hup.count, hdown.balance, add_sub_cancel_left]
    change _ ↔ (requestSucceeds c o.request → getsBack s.saved o)
    unfold getsBack
    rw [← hpool, ← hmodes]
    refine ⟨fun ht _ => ⟨ht.pool, ht.kms⟩, fun hall => ?_⟩
    obtain ⟨hp, hk⟩ := hall hok
    refine ⟨hup.otables, hp, hup.dummyQueryBo, hbalance, hup.fbActive, hk, fun hdummy => ?_⟩
    obtain ⟨hotables, hactive⟩ := hdown.saved hdummy
    simp only [usable, hup.otables, hup.dummyQueryBo, hbalance, hup.fbActive, hk]
    rw [← hotables, ← hactive, ← hdummy]

theorem Up.locked (hs : Up c s) (b k : Bool) (r : Option Errno) :
    Up c { s with suspendLock := b, suspendLocked := k, ret := r } :=
  ⟨hs.otables, hs.cman, hs.dummyQueryBo, hs.count, hs.fbActive⟩

theorem Lost.locked (hs : Lost c s) (b k : Bool) (r : Option Errno) :
    Lost c { s with suspendLock := b, suspendLocked := k, ret := r } :=
  ⟨hs.otables, hs.dummyQueryBo, hs.count, hs.hwResources, hs.fbActive⟩

theorem Down.locked (hs : Down c s) (b k : Bool) (r : Option Errno) :
    Down c { s with suspendLock := b, suspendLocked := k, ret := r } :=
  ⟨hs.otables, hs.dummyQueryBo, hs.count, hs.hwResources, hs.fbActive, hs.kms, hs.suspendState,
    hs.balance, hs.saved⟩

theorem Inv.locked (hs : Inv c s) {b k : Bool} (h : b = k) (r : Option Errno) :
    Inv c { s with suspendLock := b, suspendLocked := k, ret := r } where
  lock := h
  fault := hs.fault
  up h := (hs.up h).locked b k r
  lost h := (hs.lost h).locked b k r
  down h := (hs.down h).locked b k r

theorem inv_freeze (hs : Inv c s) (hphase : s.phase ≠ .frozen) (o : FreezeEnds)
    (hok : resumesWhole c s (.freeze o)) : Inv c (returned (vmwPmFreeze c o s)) := by
  obtain ⟨hlocked, hnone⟩ := hok
  obtain ⟨e, -, he⟩ | ⟨hkms, hleft, -⟩ |
      ⟨hkms, -, t, ht, hfrozen, hlock, hkept, hfault, hdown, -⟩ :=
    (hs.awake hphase).freeze_cases hs.fault o
  · rw [he]
    refine ⟨hlocked.symm, hs.fault, fun h => ?_, fun h => ?_, fun h => absurd h hphase⟩
    · have hup := hs.up h
      exact ⟨hup.otables, hup.cman, hup.dummyQueryBo, hup.count, hup.fbActive⟩
    · have hlost := hs.lost h
      exact ⟨hlost.otables, hlost.dummyQueryBo, hlost.count, hlost.hwResources, hlost.fbActive⟩
  · exact absurd (hnone hkms).2 hleft
  · rw [ht]
    exact ⟨hlock.trans (hkept.trans hlocked).symm, hfault.2 (hnone hkms).1,
      fun h => (by cases hfrozen.symm.trans h), fun h => (by cases hfrozen.symm.trans h),
      fun _ => hdown.locked _ _ _⟩

theorem inv_restore (hs : Inv c s) (hphase : s.phase = .frozen) (o : RestoreEnds) :
    Inv c (returned (vmwPmRestore c o s)) := by
  obtain ⟨-, e, t, ht, hlost, hlock, hlocked, hfault, hrest⟩ |
      ⟨-, t, ht, hrunning, hlock, hfault, hup, -⟩ :=
    (hs.down hphase).restore_cases o
  · rw [ht]
    exact ⟨hlock.trans (hs.lock.trans hlocked.symm), hfault.trans hs.fault,
      fun h => (by cases hlost.symm.trans h), fun _ => hrest.locked _ _ _,
      fun h => (by cases hlost.symm.trans h)⟩
  · rw [ht]
    exact ⟨hlock, hfault.trans hs.fault, fun _ => hup.locked _ _ _,
      fun h => (by cases hrunning.symm.trans h), fun h => (by cases hrunning.symm.trans h)⟩

theorem Inv.step {a : Op} (hs : Inv c s) (hok : resumesWhole c s a)
    (h : Hibernation.step c s a = some t) : Inv c t := by
  cases a with
  | prepare =>
    obtain rfl := Option.some.inj h
    exact hs.locked rfl none
  | post =>
    obtain rfl := Option.some.inj h
    by_cases hlocked : s.suspendLocked = true
    · simp only [hlocked, if_true]
      exact hs.locked rfl none
    · rw [if_neg hlocked]
      exact hs.locked hs.lock none
  | freeze o =>
    simp only [Hibernation.step, Option.ite_none_right_eq_some, Option.some.injEq] at h
    obtain ⟨hphase, rfl⟩ := h
    exact inv_freeze hs hphase o hok
  | restore o =>
    simp only [Hibernation.step, Option.ite_none_right_eq_some, Option.some.injEq] at h
    obtain ⟨hphase, rfl⟩ := h
    exact inv_restore hs hphase o
  | work n k =>
    simp only [Hibernation.step, Option.ite_none_right_eq_some, Option.some.injEq] at h
    obtain ⟨⟨hphase, -⟩, rfl⟩ := h
    have hup := hs.up hphase
    refine ⟨hs.lock, hs.fault,
      fun _ => ⟨hup.otables, hup.cman, hup.dummyQueryBo, ?_, hup.fbActive⟩,
      fun hp => (by cases hphase.symm.trans hp), fun hp => (by cases hphase.symm.trans hp)⟩
    have hcount := hup.count
    simp only [returned]
    omega

/-- In every run in which the freezes find the lock held and all that they take down and evict
    every resource, and the restores that succeed get back what there was: the suspend lock is
    held exactly if `suspend_locked`, nothing is used that is not there, a freeze that fails has
    changed nothing, and a restore that succeeds re-establishes what a usable device has. -/
theorem resuming_runs_usable {pool hasDx : Bool} {kms : ℕ} {as : List Op}
    (hrun : Runs (step c) (resumesWhole c) (init c pool hasDx kms) as s) :
    s.suspendLock = s.suspendLocked ∧ s.fault = false ∧
    (∀ o t, resumesWhole c s (.freeze o) → step c s (.freeze o) = some t →
      t.suspendLock = t.suspendLocked ∧ t.fault = false ∧
        (t.ret ≠ none → usable t = usable s)) ∧
    (∀ o t, resumesWhole c s (.restore o) → step c s (.restore o) = some t → t.ret = none →
      Reestablished c s.saved t) := by
  have hs : Inv c s := hrun.invariant (Inv c) (inv_init c pool hasDx kms)
    fun _ _ _ hu hok hstep => hu.step hok hstep
  refine ⟨hs.lock, hs.fault, fun o t hok h => ?_, fun o t hok h hret => ?_⟩
  · simp only [step, Option.ite_none_right_eq_some, Option.some.injEq] at h
    obtain ⟨hphase, rfl⟩ := h
    obtain ⟨hlock, hfault, hsame⟩ := (hs.freeze_iff hphase o rfl).2 hok
    exact ⟨hlock, hfault, fun hne => hsame (Option.isSome_iff_ne_none.2 hne)⟩
  · simp only [step, Option.ite_none_right_eq_some, Option.some.injEq] at h
    obtain ⟨hphase, rfl⟩ := h
    have ht := (hs.restore_iff hphase o (Prod.ext hret rfl)).2 hok
    exact ⟨ht.otables, ht.pool, ht.dummyQueryBo, ht.fifoBalance, ht.fbActive, ht.kms, ht.same⟩

/-- Everything succeeds, and nothing is left on the device. -/
def smoothFreeze : FreezeEnds := ⟨none, 0, ⟨none, none⟩, none⟩

def smoothRestore : RestoreEnds := ⟨⟨none, true, ⟨none, none⟩, none⟩, none⟩

def config : Config := ⟨true, true, true⟩

/-- The device hibernates with two modes set and a resource in use. -/
def resumedRun : List Op := [.work 1 2, .prepare, .freeze smoothFreeze]

theorem resumedRun_usable :
    let s := (execAdmitted (step config) (resumesWhole config) (init config true true 0)
      resumedRun).getD (init config true true 0)
    s.suspendLock = s.suspendLocked ∧ s.saved = ⟨true, true, true, 1, true, 2⟩ ∧
      ∃ t, step config s (.restore smoothRestore) = some t ∧ Reestablished config s.saved t := by
  intro s
  have hrun : Runs (step config) (resumesWhole config) (init config true true 0) resumedRun s :=
    runs_admitted_getD (by decide)
  obtain ⟨hlock, -, -, hrestore⟩ := resuming_runs_usable hrun
  exact ⟨hlock, by decide, _, rfl, hrestore smoothRestore _ (by decide) rfl (by decide)⟩

/-- The restore fails before a manager is made, and the next freeze uses the destroyed one. -/
example : (exec (step config) (init config true true 0) (resumedRun ++
    [.restore { smoothRestore with request := { smoothRestore.request with fifo := some .enomem } },
      .post, .prepare, .freeze smoothFreeze])).map PmDev.fault = some true := by
  decide

def stuckRun : List Op := [.work 1 2, .prepare, .freeze { smoothFreeze with left := 1 }]

theorem stuckRun_unusable :
    ∃ s t, Runs (step config) anyLabel (init config true true 0) stuckRun t ∧
      exec (step config) (init config true true 0) stuckRun.dropLast = some s ∧
      t.ret = some (.other 16) ∧ t.suspendLock = t.suspendLocked ∧
      (usable s).dummyQueryBo = true ∧ (usable t).dummyQueryBo = false := by
  refine ⟨_, (exec (step config) (init config true true 0) stuckRun).getD
    (init config true true 0), runs_getD (by decide), rfl, by decide, by decide, by decide,
    by decide⟩

end Vmwgfx.Hibernation

import Vmwgfx.TtmBuffer

set_option autoImplicit false

/-!
# The set-up of the device

`vmw_request_device` with the four modules that it goes through: the FIFO, the command buffer
manager with its pool, the object tables, and the dummy query buffer. Each of them can fail, and
each function passes on what is held.
-/
namespace Vmwgfx.DeviceRequest
open ExecbufState (Errno)
open TtmBuffer (MobFormat pageSize numPtPages)

/-- What is the same for all calls; `bus` is the configuration of the page tables. -/
structure Config where
  bus : TtmBuffer.Config
  hasMob : Bool
  capCommandBuffers : Bool
  capDx : Bool

/-- The registers that `vmw_fifo_init` writes and `vmw_fifo_release` writes back. -/
structure Regs where
  enable : UInt32
  configDone : UInt32
  traces : UInt32

/-- `struct vmw_mob`: whether it has a buffer for its page table. -/
structure Mob where
  ptBo : Bool
  ptLevel : MobFormat

structure Otable where
  size : ℕ
  pageTable : Option Mob
  enabled : Bool

/-- What `SVGA_3D_CMD_SET_OTABLE_BASE64` tells the device: a table in the `otable_bo`. A command
    counts as carried out, as `vmw_fifo_release` waits for the device before an error is seen. -/
structure Base where
  offset : ℕ
  sizeInBytes : ℕ
  ptDepth : MobFormat

/-- An entry of the array of tables, its base on the device, and how many page tables and
    buffers of page tables are allocated for it. -/
structure Slot where
  otable : Otable
  base : Option Base
  mobs : ℤ
  ptBos : ℤ

/-- `struct vmw_cmdbuf_man`. -/
structure Man where
  hasPool : Bool
  usingMob : Bool

/-- How many of each are allocated, and the waiters for errors. -/
@[ext]
structure Held where
  staticBuffer : ℤ
  managers : ℤ
  headers : ℤ
  dheaders : ℤ
  errorWaiters : ℤ
  dmaMemory : ℤ
  cmdSpace : ℤ
  kmaps : ℤ
  otables : ℤ
  otableBo : ℤ
  dummyBo : ℤ

/-- The fields of `struct vmw_private`. The pointer `cman` is not NULL when it is `some`. -/
structure Dev where
  hasDx : Bool
  cman : Option Man
  slots : ℕ → Slot
  numOtables : ℕ
  dummyQueryBo : Bool
  fifoDown : Bool
  regs : Regs
  saved : Regs
  held : Held

structure ManEnds where
  kzalloc : Bool
  headers : Bool
  dheaders : Bool
  startstop : Option Errno

structure PoolEnds where
  dma : Bool
  boCreate : Option Errno
  kmap : Option Errno

/-- For one table: its `struct vmw_mob`, the buffer of its page table, and FIFO space. -/
structure SetupEnds where
  mobCreate : Bool
  ptBo : Option Errno
  space : Bool

/-- `takedownSpace` tells whether there is FIFO space to take a table down. -/
structure OtablesEnds where
  kmemdup : Bool
  boCreate : Option Errno
  populate : Option Errno
  mapDma : Option Errno
  numRegions : ℕ
  setup : ℕ → SetupEnds
  takedownSpace : ℕ → Bool

structure DummyEnds where
  kzalloc : Bool
  boInit : Option Errno
  kmap : Option Errno

structure RequestEnds where
  staticBuffer : Bool
  man : ManEnds
  otables : OtablesEnds
  pool : PoolEnds
  dummy : DummyEnds

def vmwFifoInit (ends : RequestEnds) (s : Dev) : Option Errno × Dev :=
  if ends.staticBuffer then
    (none,
      { s with
        saved := s.regs
        regs := ⟨3, 1, 0⟩
        held := { s.held with staticBuffer := s.held.staticBuffer + 1 } })
  else (some .enomem, s)

def vmwFifoRelease (s : Dev) : Dev :=
  { s with
    regs := s.saved
    held := { s.held with staticBuffer := s.held.staticBuffer - 1 } }

def vmwFenceFifoUp (s : Dev) : Dev := { s with fifoDown := false }
def vmwFenceFifoDown (s : Dev) : Dev := { s with fifoDown := true }

/-- `vmw_cmdbuf_man_destroy`. The pointer of the device is left to the caller. -/
def vmwCmdbufManDestroy (h : Held) : Held :=
  { h with
    errorWaiters := h.errorWaiters - 1
    dheaders := h.dheaders - 1
    headers := h.headers - 1
    managers := h.managers - 1 }

/-- `vmw_cmdbuf_man_create`; `none` is an error pointer. -/
def vmwCmdbufManCreate (c : Config) (e : ManEnds) (h : Held) : Option Man × Held :=
  if !c.capCommandBuffers then (none, h)
  else if !e.kzalloc then (none, h)
  else
    let h := { h with managers := h.managers + 1 }
    if !e.headers then (none, { h with managers := h.managers - 1 })
    else
      let h := { h with headers := h.headers + 1 }
      if !e.dheaders then
        (none, { h with headers := h.headers - 1, managers := h.managers - 1 })
      else
        let h := { h with dheaders := h.dheaders + 1, errorWaiters := h.errorWaiters + 1 }
        match e.startstop with
        | some _ => (none, vmwCmdbufManDestroy h)
        | none => (some ⟨false, false⟩, h)

def vmwCmdbufSetPoolSize (c : Config) (e : PoolEnds) (man : Man) (h : Held) :
    Option Errno × Man × Held :=
  if man.hasPool then (some .einval, man, h)
  else if e.dma then (none, ⟨true, false⟩, { h with dmaMemory := h.dmaMemory + 1 })
  else if !c.capDx then (some .enomem, man, h)
  else
    match e.boCreate with
    | some err => (some err, man, h)
    | none =>
      let h := { h with cmdSpace := h.cmdSpace + 1 }
      match e.kmap with
      | some err => (some err, ⟨false, true⟩, { h with cmdSpace := h.cmdSpace - 1 })
      | none => (none, ⟨true, true⟩, { h with kmaps := h.kmaps + 1 })

def vmwCmdbufRemovePool (man : Man) (h : Held) : Man × Held :=
  if man.hasPool then
    (⟨false, man.usingMob⟩,
      if man.usingMob then { h with kmaps := h.kmaps - 1, cmdSpace := h.cmdSpace - 1 }
      else { h with dmaMemory := h.dmaMemory - 1 })
  else (man, h)

/-- `pre_dx_tables` and the table that `dx_tables` has behind them. -/
def preDxTables : List Otable :=
  [⟨53040 * 16, none, true⟩, ⟨32768 * 64, none, true⟩, ⟨256 * 8, none, true⟩,
    ⟨20000 * 16, none, true⟩, ⟨16 * 64, none, true⟩]

def dxTables : List Otable := preDxTables ++ [⟨256 * 8, none, true⟩]

def tables (hasDx : Bool) : List Otable := if hasDx then dxTables else preDxTables

/-- The levels that `vmw_mob_pt_setup` builds over the pages, two at most. -/
def ptLevels (c : TtmBuffer.Config) : ℕ → ℕ → ℕ
  | 0, _ => 0
  | left + 1, pages => if pages ≤ 1 then 0 else 1 + ptLevels c left (numPtPages c pages)

/-- How the device finds the pages of a table: the level, with a page table or without. -/
def otableMob (c : TtmBuffer.Config) (e : SetupEnds) (numRegions size : ℕ) : Except Errno Mob :=
  if size ≤ pageSize then .ok ⟨false, c.mobFmt 0⟩
  else if numRegions = 1 then .ok ⟨false, .range⟩
  else
    match e.ptBo with
    | some err => .error err
    | none => .ok ⟨true, c.mobFmt (ptLevels c 2 (size / pageSize))⟩

def vmwMobDestroy (mob : Mob) (s : Slot) : Slot :=
  { s with
    ptBos := if mob.ptBo then s.ptBos - 1 else s.ptBos
    mobs := s.mobs - 1 }

def vmwSetupOtableBase (c : TtmBuffer.Config) (e : SetupEnds) (numRegions offset : ℕ) (s : Slot) :
    Option Errno × Slot :=
  if !e.mobCreate then (some .enomem, s)
  else
    let s := { s with mobs := s.mobs + 1 }
    match otableMob c e numRegions s.otable.size with
    | .error err => (some err, { s with mobs := s.mobs - 1 })
    | .ok mob =>
      let s := { s with ptBos := if mob.ptBo then s.ptBos + 1 else s.ptBos }
      if e.space then
        (none,
          { s with
            base := some ⟨offset, s.otable.size, mob.ptLevel⟩
            otable := { s.otable with pageTable := some mob } })
      else (some .enomem, vmwMobDestroy mob s)

def vmwTakedownOtableBase (space : Bool) (s : Slot) : Slot :=
  match s.otable.pageTable with
  | none => s
  | some mob =>
    if space then
      vmwMobDestroy mob { s with base := none, otable := { s.otable with pageTable := none } }
    else s

def roundSize (s : Slot) : Slot :=
  if s.otable.enabled then
    { s with
      otable :=
        { s.otable with size := (s.otable.size + pageSize - 1) / pageSize * pageSize } }
  else s

/-- The loop over the tables that sets them up, with `left` to go. -/
def setupFrom (c : TtmBuffer.Config) (e : OtablesEnds) :
    ℕ → ℕ → ℕ → (ℕ → Slot) → Option Errno × (ℕ → Slot)
  | 0, _, _, slots => (none, slots)
  | left + 1, i, offset, slots =>
    if (slots i).otable.enabled then
      match vmwSetupOtableBase c (e.setup i) e.numRegions offset (slots i) with
      | (some err, s) => (some err, Function.update slots i s)
      | (none, s) =>
        setupFrom c e left (i + 1) (offset + s.otable.size) (Function.update slots i s)
    else setupFrom c e left (i + 1) offset slots

def takedownFrom (space : ℕ → Bool) : ℕ → ℕ → (ℕ → Slot) → ℕ → Slot
  | 0, _, slots => slots
  | left + 1, i, slots =>
    takedownFrom space left (i + 1)
      (if (slots i).otable.enabled then
        Function.update slots i (vmwTakedownOtableBase (space i) (slots i))
      else slots)

/-- The labels `out_no_setup` and what follows. -/
def batchUndo (e : OtablesEnds) (s : Dev) : Dev :=
  { s with
    slots := takedownFrom e.takedownSpace s.numOtables 0 s.slots
    held := { s.held with otableBo := s.held.otableBo - 1 } }

def roundSizes (s : Dev) : Dev :=
  { s with slots := fun i => if i < s.numOtables then roundSize (s.slots i) else s.slots i }

def vmwOtableBatchSetup (c : Config) (e : OtablesEnds) (s : Dev) : Option Errno × Dev :=
  let s := roundSizes s
  match e.boCreate with
  | some err => (some err, s)
  | none =>
    let s := { s with held := { s.held with otableBo := s.held.otableBo + 1 } }
    match e.populate, e.mapDma with
    | some err, _ => (some err, batchUndo e s)
    | none, some err => (some err, batchUndo e s)
    | none, none =>
      match setupFrom c.bus e s.numOtables 0 0 s.slots with
      | (some err, slots) => (some err, batchUndo e { s with slots := slots })
      | (none, slots) => (none, { s with slots := slots })

def kmemdupTables (s : Dev) : Dev :=
  { s with
    slots := fun i => { s.slots i with otable := (tables s.hasDx).getD i ⟨0, none, false⟩ }
    numOtables := (tables s.hasDx).length
    held := { s.held with otables := s.held.otables + 1 } }

def vmwOtablesSetup (c : Config) (e : OtablesEnds) (s : Dev) : Option Errno × Dev :=
  if !e.kmemdup then (some .enomem, s)
  else
    match vmwOtableBatchSetup c e (kmemdupTables s) with
    | (some err, s) => (some err, { s with held := { s.held with otables := s.held.otables - 1 } })
    | (none, s) => (none, s)

def vmwOtablesTakedown (e : OtablesEnds) (s : Dev) : Dev :=
  let s := batchUndo e s
  { s with held := { s.held with otables := s.held.otables - 1 } }

/-- `vmw_dummy_query_bo_create`; `vmw_bo_init` frees the buffer when it fails. -/
def vmwDummyQueryBoCreate (e : DummyEnds) (s : Dev) : Option Errno × Dev :=
  if !e.kzalloc then (some .enomem, s)
  else
    let h := { s.held with dummyBo := s.held.dummyBo + 1 }
    match e.boInit, e.kmap with
    | some err, _ => (some err, { s with held := { h with dummyBo := h.dummyBo - 1 } })
    | none, some err => (some err, { s with held := { h with dummyBo := h.dummyBo - 1 } })
    | none, none => (none, { s with held := h, dummyQueryBo := true })

/-- The pool of `vmw_request_device_late`, without which the manager is dropped. -/
def latePool (c : Config) (e : PoolEnds) (s : Dev) : Dev :=
  match s.cman with
  | none => s
  | some man =>
    match vmwCmdbufSetPoolSize c e man s.held with
    | (some _, _, h) => { s with cman := none, held := vmwCmdbufManDestroy h }
    | (none, man, h) => { s with cman := some man, held := h }

def vmwRequestDeviceLate (c : Config) (ends : RequestEnds) (s : Dev) : Option Errno × Dev :=
  if c.hasMob then
    match vmwOtablesSetup c ends.otables s with
    | (some err, s) => (some err, s)
    | (none, s) => (none, latePool c ends.pool s)
  else (none, latePool c ends.pool s)

/-- The label `out_no_mob`. -/
def outNoMob (s : Dev) : Dev := vmwFifoRelease (vmwFenceFifoDown s)

/-- The label `out_no_query_bo`: the manager is destroyed, and the pointer to it stays. -/
def outNoQueryBo (c : Config) (ends : RequestEnds) (s : Dev) : Dev :=
  let s := match s.cman with
    | none => s
    | some man =>
      let (man, h) := vmwCmdbufRemovePool man s.held
      { s with cman := some man, held := h }
  let s := if c.hasMob then vmwOtablesTakedown ends.otables s else s
  let s := match s.cman with
    | none => s
    | some _ => { s with held := vmwCmdbufManDestroy s.held }
  outNoMob s

def createMan (c : Config) (ends : RequestEnds) (s : Dev) : Dev :=
  match vmwCmdbufManCreate c ends.man s.held with
  | (none, h) => { s with cman := none, hasDx := false, held := h }
  | (some man, h) => { s with cman := some man, held := h }

def vmwRequestDevice (c : Config) (ends : RequestEnds) (s : Dev) : Option Errno × Dev :=
  match vmwFifoInit ends s with
  | (some err, s) => (some err, s)
  | (none, s) =>
    let s := createMan c ends (vmwFenceFifoUp s)
    match vmwRequestDeviceLate c ends s with
    | (some err, s) => (some err, outNoMob s)
    | (none, s) =>
      match vmwDummyQueryBoCreate ends.dummy s with
      | (some err, s) => (some err, outNoQueryBo c ends s)
      | (none, s) => (none, s)

def noHeld : Held := ⟨0, 0, 0, 0, 0, 0, 0, 0, 0, 0, 0⟩

/-- What a device that is not set up still has. `cman` is NULL when the driver is loaded, and
    points to the last manager after a release. -/
structure Start where
  hasDx : Bool
  cman : Option Man
  otables : ℕ → Otable
  numOtables : ℕ
  regs : Regs
  saved : Regs

def Start.dev (p : Start) : Dev :=
  { hasDx := p.hasDx
    cman := p.cman
    slots := fun i => ⟨p.otables i, none, 0, 0⟩
    numOtables := p.numOtables
    dummyQueryBo := false
    fifoDown := true
    regs := p.regs
    saved := p.saved
    held := noHeld }

/-- A table without a base on the device and without memory for it. -/
def Slot.Clear (s : Slot) : Prop := s.base = none ∧ s.mobs = 0 ∧ s.ptBos = 0

/-- Nothing is set on the device or allocated, there is no manager, the fences are down and the
    FIFO is released. -/
structure NothingLeft (p : Start) (t : Dev) : Prop where
  slots : ∀ i, (t.slots i).Clear
  held : t.held = noHeld
  cman : t.cman = none
  fifoDown : t.fifoDown = true
  regs : t.regs = p.regs

section Condition
variable (c : Config) (ends : RequestEnds)

def manMade : Bool :=
  c.capCommandBuffers && ends.man.kzalloc && ends.man.headers && ends.man.dheaders &&
    ends.man.startstop.isNone

/-- `has_dx` once the manager has been tried. -/
def dxLeft (p : Start) : Bool := p.hasDx && manMade c ends

/-- The manager gets its pool, of DMA memory or in a MOB. -/
def PoolMade : Prop :=
  ends.pool.dma = true ∨
    (c.capDx = true ∧ ends.pool.boCreate = none ∧ ends.pool.kmap = none)

structure SetupOk (e : SetupEnds) (numRegions size : ℕ) : Prop where
  mobCreate : e.mobCreate = true
  ptBo : size ≤ pageSize ∨ numRegions = 1 ∨ e.ptBo = none
  space : e.space = true

def freshSlot (hasDx : Bool) (i : ℕ) : Slot :=
  roundSize ⟨(tables hasDx).getD i ⟨0, none, false⟩, none, 0, 0⟩

def TableOk (e : OtablesEnds) (hasDx : Bool) (i : ℕ) : Prop :=
  SetupOk (e.setup i) e.numRegions (freshSlot hasDx i).otable.size

structure BatchMade (e : OtablesEnds) : Prop where
  kmemdup : e.kmemdup = true
  boCreate : e.boCreate = none
  populate : e.populate = none
  mapDma : e.mapDma = none

structure OtablesMade (e : OtablesEnds) (hasDx : Bool) : Prop where
  batch : BatchMade e
  setup : ∀ i < (tables hasDx).length, TableOk e hasDx i

/-- There is FIFO space to take down every table that has been set up. -/
def TakenDown (e : OtablesEnds) (hasDx : Bool) : Prop :=
  BatchMade e → ∀ i < (tables hasDx).length, (∀ j ≤ i, TableOk e hasDx j) →
    e.takedownSpace i = true

structure DummyMade : Prop where
  kzalloc : ends.dummy.kzalloc = true
  boInit : ends.dummy.boInit = none
  kmap : ends.dummy.kmap = none

structure RequestOk (p : Start) : Prop where
  fifo : ends.staticBuffer = false → p.cman = none
  otables : ends.staticBuffer = true → c.hasMob = true →
    ¬OtablesMade ends.otables (dxLeft c ends p) →
      manMade c ends = false ∧ TakenDown ends.otables (dxLeft c ends p)
  dummy : ends.staticBuffer = true →
    (c.hasMob = true → OtablesMade ends.otables (dxLeft c ends p)) → ¬DummyMade ends →
      ¬(manMade c ends = true ∧ PoolMade c ends) ∧
        (c.hasMob = true → TakenDown ends.otables (dxLeft c ends p))

end Condition

section Tables
variable {c : TtmBuffer.Config} {e : OtablesEnds} {u : SetupEnds} {numRegions offset : ℕ}
  {s t : Slot} {slots : ℕ → Slot} {left i : ℕ}

def SetFrom (s t : Slot) : Prop :=
  ∃ mob offset, t =
    { otable := { s.otable with pageTable := some mob }
      base := some ⟨offset, s.otable.size, mob.ptLevel⟩
      mobs := s.mobs + 1
      ptBos := if mob.ptBo then s.ptBos + 1 else s.ptBos }

theorem otableMob_ok {size : ℕ} (h : size ≤ pageSize ∨ numRegions = 1 ∨ u.ptBo = none) :
    ∃ mob, otableMob c u numRegions size = .ok mob := by
  unfold otableMob
  split_ifs with hs hn
  · exact ⟨_, rfl⟩
  · exact ⟨_, rfl⟩
  · have hp : u.ptBo = none := (h.resolve_left hs).resolve_left hn
    rw [hp]
    exact ⟨_, rfl⟩

theorem otableMob_error {size : ℕ} (h : ¬(size ≤ pageSize ∨ numRegions = 1 ∨ u.ptBo = none)) :
    ∃ err, otableMob c u numRegions size = .error err := by
  rw [not_or, not_or] at h
  obtain ⟨err, he⟩ := Option.ne_none_iff_exists'.1 h.2.2
  exact ⟨err, by rw [otableMob, if_neg h.1, if_neg h.2.1, he]⟩

variable (c u numRegions offset s) in
theorem setupBase_cases :
    (SetupOk u numRegions s.otable.size ∧ ∃ t,
      vmwSetupOtableBase c u numRegions offset s = (none, t) ∧ SetFrom s t) ∨
    (¬SetupOk u numRegions s.otable.size ∧ ∃ err,
      vmwSetupOtableBase c u numRegions offset s = (some err, s)) := by
  unfold vmwSetupOtableBase
  cases hm : u.mobCreate with
  | false => exact .inr ⟨fun h => absurd h.mobCreate (by simp [hm]), .enomem, rfl⟩
  | true =>
    by_cases hp : s.otable.size ≤ pageSize ∨ numRegions = 1 ∨ u.ptBo = none
    · obtain ⟨mob, hmob⟩ := otableMob_ok (c := c) hp
      cases hsp : u.space with
      | true =>
        refine .inl ⟨⟨hm, hp, hsp⟩, ?_⟩
        simp only [hmob]
        exact ⟨_, rfl, mob, offset, rfl⟩
      | false =>
        refine .inr ⟨fun h => absurd h.space (by simp [hsp]), .enomem, ?_⟩
        simp only [hmob]
        cases hb : mob.ptBo <;> simp [vmwMobDestroy, hb]
    · obtain ⟨err, herr⟩ := otableMob_error (c := c) hp
      refine .inr ⟨fun h => hp h.ptBo, err, ?_⟩
      simp only [herr]
      simp

theorem takedown_set (h : SetFrom s t) (hp : s.otable.pageTable = none) (hb : s.base = none) :
    vmwTakedownOtableBase true t = s := by
  obtain ⟨mob, offset, rfl⟩ := h
  obtain ⟨⟨size, pageTable, enabled⟩, base, mobs, ptBos⟩ := s
  obtain rfl : pageTable = none := hp
  obtain rfl : base = none := hb
  cases hm : mob.ptBo <;> simp [vmwTakedownOtableBase, vmwMobDestroy, hm]

theorem takedown_unset (space : Bool) (hp : s.otable.pageTable = none) :
    vmwTakedownOtableBase space s = s := by
  rw [vmwTakedownOtableBase, hp]

theorem takedown_noSpace (h : SetFrom s t) : (vmwTakedownOtableBase false t).base ≠ none := by
  obtain ⟨mob, offset, rfl⟩ := h
  simp [vmwTakedownOtableBase]

def SlotOk (e : OtablesEnds) (slots : ℕ → Slot) (i : ℕ) : Prop :=
  SetupOk (e.setup i) e.numRegions (slots i).otable.size

/-- The loop of the set-up ends without an error if every table is set up. The tables before the
    first that is not are set up, the others are left as they were. -/
structure SetupSpec (e : OtablesEnds) (slots : ℕ → Slot) (i left : ℕ)
    (r : Option Errno × (ℕ → Slot)) : Prop where
  ret : r.1 = none ↔ ∀ j, i ≤ j → j < i + left → SlotOk e slots j
  set : ∀ j, i ≤ j → j < i + left → (∀ k, i ≤ k → k ≤ j → SlotOk e slots k) →
    SetFrom (slots j) (r.2 j)
  unset : ∀ j, ¬(i ≤ j ∧ j < i + left ∧ ∀ k, i ≤ k → k ≤ j → SlotOk e slots k) →
    r.2 j = slots j

theorem setupFrom_spec (h : ∀ j, i ≤ j → j < i + left → (slots j).otable.enabled = true) :
    SetupSpec e slots i left (setupFrom c e left i offset slots) := by
  induction left generalizing i offset slots with
  | zero =>
    constructor
    · exact ⟨fun _ j hj hj' => absurd hj' (by omega), fun _ => rfl⟩
    · intro j hj hj'
      omega
    · intro j _
      rfl
  | succ left ih =>
    rw [setupFrom, if_pos (h i le_rfl (by omega))]
    obtain ⟨hok, t, ht, hset⟩ | ⟨hbad, err, herr⟩ := setupBase_cases c (e.setup i)
      e.numRegions offset (slots i)
    · simp only [ht]
      have hother : ∀ j, j ≠ i → Function.update slots i t j = slots j :=
        fun j hj => Function.update_of_ne hj _ _
      have hsame : ∀ j, i + 1 ≤ j →
          (SlotOk e (Function.update slots i t) j ↔ SlotOk e slots j) := by
        intro j hj
        rw [SlotOk, SlotOk, hother j (by omega)]
      have henabled : ∀ j, i + 1 ≤ j → j < i + 1 + left →
          (Function.update slots i t j).otable.enabled = true := by
        intro j hj hj'
        rw [hother j (by omega)]
        exact h j (by omega) (by omega)
      have hspec : SetupSpec e (Function.update slots i t) (i + 1) left
          (setupFrom c e left (i + 1) (offset + t.otable.size) (Function.update slots i t)) :=
        ih henabled
      constructor
      · rw [hspec.ret]
        constructor
        · intro hall j hj hj'
          obtain rfl | hlt := Nat.eq_or_lt_of_le hj
          · exact hok
          · exact (hsame j hlt).1 (hall j hlt (by omega))
        · intro hall j hj hj'
          exact (hsame j hj).2 (hall j (by omega) (by omega))
      · intro j hj hj' hall
        obtain rfl | hlt := Nat.eq_or_lt_of_le hj
        · rw [hspec.unset i (by omega), Function.update_self]
          exact hset
        · have hmine := hspec.set j hlt (by omega) fun k hk hk' =>
            (hsame k hk).2 (hall k (by omega) hk')
          rw [hother j (by omega)] at hmine
          exact hmine
      · intro j hn
        have hne : j ≠ i := by
          rintro rfl
          refine hn ⟨le_rfl, by omega, fun k hk hk' => ?_⟩
          obtain rfl : k = j := by omega
          exact hok
        rw [hspec.unset j, hother j hne]
        rintro ⟨hj, hj', hall⟩
        refine hn ⟨by omega, by omega, fun k hk hk' => ?_⟩
        obtain rfl | hlt := Nat.eq_or_lt_of_le hk
        · exact hok
        · exact (hsame k hlt).1 (hall k hlt hk')
    · simp only [herr, Function.update_eq_self]
      constructor
      · exact ⟨fun hn => absurd hn (by simp), fun hall => absurd (hall i le_rfl (by omega)) hbad⟩
      · intro j hj _ hall
        exact absurd (hall i le_rfl hj) hbad
      · intro j _
        rfl

theorem takedownFrom_eq (space : ℕ → Bool) (j : ℕ) : takedownFrom space left i slots j =
    if (i ≤ j ∧ j < i + left) ∧ (slots j).otable.enabled = true then
      vmwTakedownOtableBase (space j) (slots j)
    else slots j := by
  induction left generalizing i slots with
  | zero => exact (if_neg (by omega)).symm
  | succ left ih =>
    rw [takedownFrom, ih]
    by_cases hj : j = i
    · subst hj
      rw [if_neg (by omega)]
      by_cases he : (slots j).otable.enabled = true
      · rw [if_pos he, if_pos ⟨by omega, he⟩, Function.update_self]
      · rw [if_neg he, if_neg (fun hn => he hn.2)]
    · have hsame : (if (slots i).otable.enabled = true then
          Function.update slots i (vmwTakedownOtableBase (space i) (slots i)) else slots) j =
            slots j := by
        split_ifs
        · exact Function.update_of_ne hj _ _
        · rfl
      rw [hsame]
      exact if_congr (and_congr_left' (by omega)) rfl rfl

end Tables

section Otables
variable {c : Config} {e : OtablesEnds} {s t : Dev} {hasDx : Bool} {slots : ℕ → Slot}

theorem tables_enabled (hasDx : Bool) : ∀ j < (tables hasDx).length,
    ((tables hasDx).getD j ⟨0, none, false⟩).enabled = true := by
  cases hasDx <;> decide

theorem getD_beyond {j : ℕ} (h : (tables hasDx).length ≤ j) :
    (tables hasDx).getD j ⟨0, none, false⟩ = ⟨0, none, false⟩ := by
  rw [List.getD_eq_getElem?_getD, List.getElem?_eq_none h]
  rfl

theorem freshSlot_beyond {j : ℕ} (h : (tables hasDx).length ≤ j) :
    freshSlot hasDx j = ⟨⟨0, none, false⟩, none, 0, 0⟩ := by
  rw [freshSlot, getD_beyond h]
  rfl

theorem freshSlot_enabled {j : ℕ} (h : j < (tables hasDx).length) :
    (freshSlot hasDx j).otable.enabled = true := by
  have he := tables_enabled hasDx j h
  rw [freshSlot, roundSize, if_pos he]
  exact he

theorem freshSlot_clear (hasDx : Bool) (j : ℕ) : (freshSlot hasDx j).Clear := by
  rw [freshSlot, roundSize]
  split_ifs <;> exact ⟨rfl, rfl, rfl⟩

theorem tables_pageTable (hasDx : Bool) : ∀ j < (tables hasDx).length,
    ((tables hasDx).getD j ⟨0, none, false⟩).pageTable = none := by
  cases hasDx <;> decide

theorem freshSlot_pageTable (hasDx : Bool) (j : ℕ) :
    (freshSlot hasDx j).otable.pageTable = none := by
  by_cases h : j < (tables hasDx).length
  · rw [freshSlot, roundSize, if_pos (tables_enabled hasDx j h)]
    exact tables_pageTable hasDx j h
  · rw [freshSlot_beyond (not_lt.1 h)]

theorem undo_clear_iff (space : ℕ → Bool) {P : ℕ → Prop}
    (hP : ∀ j, P j → j < (tables hasDx).length)
    (hset : ∀ j, P j → SetFrom (freshSlot hasDx j) (slots j))
    (hunset : ∀ j, ¬P j → slots j = freshSlot hasDx j) :
    (∀ j, (takedownFrom space (tables hasDx).length 0 slots j).Clear) ↔
      ∀ j, P j → space j = true := by
  have henabled : ∀ j, P j → (slots j).otable.enabled = true := by
    intro j hj
    obtain ⟨mob, offset, hs⟩ := hset j hj
    rw [hs]
    exact freshSlot_enabled (hP j hj)
  constructor
  · intro h j hj
    by_contra hsp
    have hclear := h j
    have hlt := hP j hj
    rw [takedownFrom_eq, if_pos ⟨by omega, henabled j hj⟩, Bool.eq_false_of_not_eq_true hsp]
      at hclear
    exact takedown_noSpace (hset j hj) hclear.1
  · intro h j
    rw [takedownFrom_eq]
    by_cases hj : P j
    · have hlt := hP j hj
      rw [if_pos ⟨by omega, henabled j hj⟩, h j hj,
        takedown_set (hset j hj) (freshSlot_pageTable hasDx j) (freshSlot_clear hasDx j).1]
      exact freshSlot_clear hasDx j
    · rw [hunset j hj, takedown_unset _ (freshSlot_pageTable hasDx j), ite_self]
      exact freshSlot_clear hasDx j

theorem array_eq (h : ∀ j, (s.slots j).Clear) :
    (roundSizes (kmemdupTables s)).slots = freshSlot s.hasDx := by
  funext j
  have heq : (kmemdupTables s).slots j =
      ⟨(tables s.hasDx).getD j ⟨0, none, false⟩, none, 0, 0⟩ := by
    obtain ⟨hb, hm, hp⟩ := h j
    dsimp only [kmemdupTables]
    rw [hb, hm, hp]
  simp only [roundSizes, heq]
  split_ifs with hlt
  · rfl
  · have hge : (tables s.hasDx).length ≤ j := not_lt.1 hlt
    rw [freshSlot_beyond hge, getD_beyond hge]

structure BatchUp (s t : Dev) : Prop where
  rest : t =
    { s with
      slots := t.slots
      held := { s.held with otableBo := s.held.otableBo + 1 } }
  set : ∀ j < (tables s.hasDx).length, SetFrom (freshSlot s.hasDx j) (t.slots j)
  unset : ∀ j, (tables s.hasDx).length ≤ j → t.slots j = freshSlot s.hasDx j

/-- An error gives back what was allocated, except for what could not be taken down. -/
structure BatchFailed (e : OtablesEnds) (s t : Dev) : Prop where
  rest : t = { s with slots := t.slots }
  slots : (∀ j, (t.slots j).Clear) ↔ TakenDown e s.hasDx

/-- The buffer as it is when the loop of the set-up ends. -/
def batchOf (s : Dev) (slots : ℕ → Slot) : Dev :=
  { s with slots := slots, held := { s.held with otableBo := s.held.otableBo + 1 } }

theorem undo_failed {P : ℕ → Prop} (hn : s.numOtables = (tables s.hasDx).length)
    (hP : ∀ j, P j → j < (tables s.hasDx).length)
    (hset : ∀ j, P j → SetFrom (freshSlot s.hasDx j) (slots j))
    (hunset : ∀ j, ¬P j → slots j = freshSlot s.hasDx j)
    (hdown : (∀ j, P j → e.takedownSpace j = true) ↔ TakenDown e s.hasDx) :
    BatchFailed e s (batchUndo e (batchOf s slots)) := by
  have hslots : (batchUndo e (batchOf s slots)).slots =
      takedownFrom e.takedownSpace (tables s.hasDx).length 0 slots := by
    rw [← hn]
    rfl
  constructor
  · simp [batchUndo, batchOf]
  · rw [hslots, undo_clear_iff e.takedownSpace hP hset hunset, hdown]

theorem unmade_failed (hn : s.numOtables = (tables s.hasDx).length) (hb : ¬BatchMade e) :
    BatchFailed e s (batchUndo e (batchOf s (freshSlot s.hasDx))) :=
  undo_failed (P := fun _ => False) hn (fun _ hj => hj.elim) (fun _ hj => hj.elim)
    (fun _ _ => rfl) ⟨fun _ hm => absurd hm hb, fun _ _ hj => hj.elim⟩

theorem batchSetup_spec (hk : e.kmemdup = true) (hn : s.numOtables = (tables s.hasDx).length)
    (hs : (roundSizes s).slots = freshSlot s.hasDx) :
    (OtablesMade e s.hasDx ∧ ∃ t, vmwOtableBatchSetup c e s = (none, t) ∧ BatchUp s t) ∨
    (¬OtablesMade e s.hasDx ∧ ∃ err t, vmwOtableBatchSetup c e s = (some err, t) ∧
      BatchFailed e s t) := by
  have hround : roundSizes s = { s with slots := freshSlot s.hasDx } := by
    rw [← hs]
    rfl
  have hspec : SetupSpec e (freshSlot s.hasDx) 0 s.numOtables
      (setupFrom c.bus e s.numOtables 0 0 (freshSlot s.hasDx)) :=
    setupFrom_spec fun j _ hj => freshSlot_enabled (by omega)
  unfold vmwOtableBatchSetup
  simp only [hround]
  cases hb : e.boCreate with
  | some err =>
    have hnot : ¬BatchMade e := fun hm => absurd hm.boCreate (by simp [hb])
    exact .inr ⟨fun hm => hnot hm.batch, err, _, rfl, rfl,
      fun _ hm => absurd hm hnot, fun _ => freshSlot_clear s.hasDx⟩
  | none =>
    cases hp : e.populate with
    | some err =>
      have hnot : ¬BatchMade e := fun hm => absurd hm.populate (by simp [hp])
      exact .inr ⟨fun hm => hnot hm.batch, err, _, rfl, unmade_failed hn hnot⟩
    | none =>
      cases hm : e.mapDma with
      | some err =>
        have hnot : ¬BatchMade e := fun hb => absurd hb.mapDma (by simp [hm])
        exact .inr ⟨fun hm => hnot hm.batch, err, _, rfl, unmade_failed hn hnot⟩
      | none =>
        have hbatch : BatchMade e := ⟨hk, hb, hp, hm⟩
        simp only
        generalize setupFrom c.bus e s.numOtables 0 0 (freshSlot s.hasDx) = r at hspec ⊢
        obtain ⟨ret, slots⟩ := r
        cases ret with
        | none =>
          have hall : ∀ j < (tables s.hasDx).length, TableOk e s.hasDx j :=
            fun j hj => hspec.ret.1 rfl j (Nat.zero_le j) (by omega)
          refine .inl ⟨⟨hbatch, hall⟩, batchOf s slots, rfl, rfl, ?_, ?_⟩
          · intro j hj
            exact hspec.set j (Nat.zero_le j) (by omega) fun k _ hk => hall k (by omega)
          · intro j hj
            exact hspec.unset j (by omega)
        | some err =>
          have hnot : ¬OtablesMade e s.hasDx := fun hm =>
            absurd (hspec.ret.2 fun j _ hj => hm.setup j (by omega)) (by simp)
          have hfail : BatchFailed e s (batchUndo e (batchOf s slots)) := by
            apply undo_failed
              (P := fun j => j < (tables s.hasDx).length ∧ ∀ k ≤ j, TableOk e s.hasDx k) hn
            · exact fun j hj => hj.1
            · exact fun j hj => hspec.set j (Nat.zero_le j) (by omega) fun k _ hk => hj.2 k hk
            · intro j hj
              exact hspec.unset j fun hu => hj ⟨by omega, fun k hk => hu.2.2 k (Nat.zero_le k) hk⟩
            · exact ⟨fun hd _ j hj hall => hd j ⟨hj, hall⟩,
                fun hd j hj => hd hbatch j hj.1 hj.2⟩
          exact .inr ⟨hnot, err, _, rfl, hfail⟩

/-- An error gives back what was allocated, except for what could not be taken down. -/
structure OtablesFailed (e : OtablesEnds) (s t : Dev) : Prop where
  rest : t = { s with slots := t.slots, numOtables := t.numOtables }
  slots : (∀ j, (t.slots j).Clear) ↔ TakenDown e s.hasDx

def OtablesUp (s t : Dev) : Prop := BatchUp (kmemdupTables s) t

theorem otablesSetup_spec (h : ∀ j, (s.slots j).Clear) :
    (OtablesMade e s.hasDx ∧ ∃ t, vmwOtablesSetup c e s = (none, t) ∧ OtablesUp s t) ∨
    (¬OtablesMade e s.hasDx ∧ ∃ err t, vmwOtablesSetup c e s = (some err, t) ∧
      OtablesFailed e s t) := by
  unfold vmwOtablesSetup
  cases hk : e.kmemdup with
  | false =>
    exact .inr ⟨fun hm => absurd hm.batch.kmemdup (by simp [hk]), .enomem, s, rfl, rfl,
      fun _ hb => absurd hb.kmemdup (by simp [hk]), fun _ => h⟩
  | true =>
    simp only [Bool.not_true, Bool.false_eq_true, if_false]
    obtain ⟨hmade, t, ht, hup⟩ | ⟨hnot, err, t, ht, hfail⟩ :=
      batchSetup_spec (c := c) (s := kmemdupTables s) hk rfl (array_eq h)
    · exact .inl ⟨hmade, t, by rw [ht], hup⟩
    · refine .inr ⟨hnot, err, { t with held := { t.held with otables := t.held.otables - 1 } },
        by rw [ht], ?_, hfail.slots⟩
      rw [hfail.rest]
      simp [kmemdupTables]

theorem otablesTakedown_spec (hm : OtablesMade e s.hasDx) (h : OtablesUp s t) :
    OtablesFailed e s (vmwOtablesTakedown e t) := by
  have hfail : BatchFailed e (kmemdupTables s)
      (batchUndo e (batchOf (kmemdupTables s) t.slots)) := by
    apply undo_failed (P := fun j => j < (tables s.hasDx).length) rfl
    · exact fun j hj => hj
    · exact h.set
    · exact fun j hj => h.unset j (not_lt.1 hj)
    · exact ⟨fun hd _ j hj _ => hd j hj,
        fun hd j hj => hd hm.batch j hj fun k hk => hm.setup k (by omega)⟩
  have ht : t = batchOf (kmemdupTables s) t.slots := h.rest
  constructor
  · rw [vmwOtablesTakedown, ht]
    simp [batchUndo, batchOf, kmemdupTables]
  · rw [vmwOtablesTakedown, ht]
    exact hfail.slots

end Otables

section Manager
variable {c : Config} {ends : RequestEnds} {h : Held}

def withMan (h : Held) : Held :=
  { h with
    managers := h.managers + 1
    headers := h.headers + 1
    dheaders := h.dheaders + 1
    errorWaiters := h.errorWaiters + 1 }

theorem manDestroy_withMan (h : Held) : vmwCmdbufManDestroy (withMan h) = h := by
  simp [vmwCmdbufManDestroy, withMan]

theorem manCreate_made (hm : manMade c ends = true) (h : Held) :
    vmwCmdbufManCreate c ends.man h = (some ⟨false, false⟩, withMan h) := by
  simp only [manMade, Bool.and_eq_true, Option.isNone_iff_eq_none] at hm
  obtain ⟨⟨⟨⟨hcap, hk⟩, hh⟩, hd⟩, hs⟩ := hm
  simp [vmwCmdbufManCreate, hcap, hk, hh, hd, hs, withMan]

theorem manCreate_unmade (hm : manMade c ends = false) (h : Held) :
    vmwCmdbufManCreate c ends.man h = (none, h) := by
  unfold vmwCmdbufManCreate
  split_ifs with hcap hk hh hd
  · rfl
  · rfl
  · simp
  · simp
  · cases hs : ends.man.startstop with
    | some err =>
      have hgone := manDestroy_withMan h
      exact congrArg (Prod.mk none) hgone
    | none => simp_all [manMade]

def withPool (usingMob : Bool) (h : Held) : Held :=
  if usingMob then { h with kmaps := h.kmaps + 1, cmdSpace := h.cmdSpace + 1 }
  else { h with dmaMemory := h.dmaMemory + 1 }

variable (c ends h) in
theorem setPoolSize_cases :
    (PoolMade c ends ∧ ∃ u, vmwCmdbufSetPoolSize c ends.pool ⟨false, false⟩ h =
      (none, ⟨true, u⟩, withPool u h)) ∨
    (¬PoolMade c ends ∧ ∃ err man, vmwCmdbufSetPoolSize c ends.pool ⟨false, false⟩ h =
      (some err, man, h)) := by
  unfold vmwCmdbufSetPoolSize PoolMade
  cases hd : ends.pool.dma with
  | true => exact .inl ⟨.inl rfl, false, rfl⟩
  | false =>
    cases hx : c.capDx with
    | false => exact .inr ⟨by simp, .enomem, ⟨false, false⟩, rfl⟩
    | true =>
      cases hb : ends.pool.boCreate with
      | some err => exact .inr ⟨by simp, err, ⟨false, false⟩, rfl⟩
      | none =>
        cases hk : ends.pool.kmap with
        | some err => exact .inr ⟨by simp, err, ⟨false, true⟩, by simp⟩
        | none => exact .inl ⟨.inr ⟨rfl, rfl, rfl⟩, true, rfl⟩

variable (ends) in
theorem dummyCreate_cases (s : Dev) :
    (DummyMade ends ∧ ∃ t, vmwDummyQueryBoCreate ends.dummy s = (none, t)) ∨
    (¬DummyMade ends ∧ ∃ err, vmwDummyQueryBoCreate ends.dummy s = (some err, s)) := by
  unfold vmwDummyQueryBoCreate
  cases hk : ends.dummy.kzalloc with
  | false => exact .inr ⟨fun hm => absurd hm.kzalloc (by simp [hk]), .enomem, rfl⟩
  | true =>
    cases hb : ends.dummy.boInit with
    | some err => exact .inr ⟨fun hm => absurd hm.boInit (by simp [hb]), err, by simp⟩
    | none =>
      cases hm : ends.dummy.kmap with
      | some err => exact .inr ⟨fun hd => absurd hd.kmap (by simp [hm]), err, by simp⟩
      | none => exact .inl ⟨⟨hk, hb, hm⟩, _, rfl⟩

end Manager

section Request
variable {c : Config} {ends : RequestEnds} {p : Start} {s t : Dev}

def fifoHeld : Held := { noHeld with staticBuffer := 1 }

def begun (p : Start) (dx : Bool) (man : Option Man) (h : Held) : Dev :=
  { p.dev with
    hasDx := dx
    cman := man
    fifoDown := false
    regs := ⟨3, 1, 0⟩
    saved := p.regs
    held := h }

theorem begun_clear (p : Start) (dx : Bool) (man : Option Man) (h : Held) :
    ∀ j, ((begun p dx man h).slots j).Clear := fun _ => ⟨rfl, rfl, rfl⟩

theorem fifoInit_made (hs : ends.staticBuffer = true) (p : Start) :
    vmwFifoInit ends p.dev = (none, { p.dev with
      saved := p.regs, regs := ⟨3, 1, 0⟩, held := fifoHeld }) := by
  rw [vmwFifoInit, if_pos hs]
  rfl

theorem fifoInit_unmade (hs : ends.staticBuffer = false) (s : Dev) :
    vmwFifoInit ends s = (some .enomem, s) := by
  simp [vmwFifoInit, hs]

/-- What `vmw_request_device_late` begins with. -/
def early (c : Config) (ends : RequestEnds) (p : Start) : Dev :=
  createMan c ends (vmwFenceFifoUp (vmwFifoInit ends p.dev).2)

theorem early_made (hs : ends.staticBuffer = true) (hm : manMade c ends = true) :
    early c ends p = begun p (dxLeft c ends p) (some ⟨false, false⟩) (withMan fifoHeld) := by
  rw [early, fifoInit_made hs, createMan, vmwFenceFifoUp, manCreate_made hm, dxLeft, hm,
    Bool.and_true]
  rfl

theorem early_unmade (hs : ends.staticBuffer = true) (hm : manMade c ends = false) :
    early c ends p = begun p (dxLeft c ends p) none fifoHeld := by
  rw [early, fifoInit_made hs, createMan, vmwFenceFifoUp, manCreate_unmade hm, dxLeft, hm,
    Bool.and_false]
  rfl

def dropMan (s : Dev) : Dev := { s with cman := none, held := vmwCmdbufManDestroy s.held }

theorem dropMan_begun (p : Start) (dx : Bool) (man : Option Man) :
    dropMan (begun p dx man (withMan fifoHeld)) = begun p dx none fifoHeld := by
  rw [dropMan, begun, manDestroy_withMan]
  rfl

structure TablesUp (c : Config) (s t : Dev) : Prop where
  mob : c.hasMob = true → OtablesUp s t
  noMob : c.hasMob = false → t = s

theorem TablesUp.cman (h : TablesUp c s t) : t.cman = s.cman := by
  cases hm : c.hasMob with
  | true =>
    rw [(h.mob hm).rest]
    rfl
  | false => rw [h.noMob hm]

theorem TablesUp.dropMan (h : TablesUp c s t) : TablesUp c (dropMan s) (dropMan t) := by
  constructor
  · intro hm
    have hup := h.mob hm
    exact ⟨congrArg DeviceRequest.dropMan hup.rest, hup.set, hup.unset⟩
  · intro hm
    rw [h.noMob hm]

variable (c ends) in
theorem late_cases (h : ∀ j, (s.slots j).Clear) :
    ((c.hasMob = true → OtablesMade ends.otables s.hasDx) ∧ ∃ t, TablesUp c s t ∧
      vmwRequestDeviceLate c ends s = (none, latePool c ends.pool t)) ∨
    (c.hasMob = true ∧ ¬OtablesMade ends.otables s.hasDx ∧ ∃ err t,
      OtablesFailed ends.otables s t ∧ vmwRequestDeviceLate c ends s = (some err, t)) := by
  unfold vmwRequestDeviceLate
  cases hm : c.hasMob with
  | false => exact .inl ⟨by simp, s, ⟨by simp [hm], fun _ => rfl⟩, rfl⟩
  | true =>
    obtain ⟨hmade, t, ht, hup⟩ | ⟨hnot, err, t, ht, hfail⟩ :=
      otablesSetup_spec (c := c) (e := ends.otables) h
    · refine .inl ⟨fun _ => hmade, t, ⟨fun _ => hup, by simp [hm]⟩, ?_⟩
      rw [if_pos rfl, ht]
    · refine .inr ⟨rfl, hnot, err, t, hfail, ?_⟩
      rw [if_pos rfl, ht]

theorem latePool_none (h : s.cman = none) : latePool c ends.pool s = s := by
  rw [latePool, h]

theorem latePool_made (h : s.cman = some ⟨false, false⟩) (hp : PoolMade c ends) :
    (latePool c ends.pool s).cman ≠ none := by
  obtain ⟨-, u, hu⟩ | ⟨hnot, -⟩ := setPoolSize_cases c ends s.held
  · simp [latePool, h, hu]
  · exact absurd hp hnot

theorem latePool_unmade (h : s.cman = some ⟨false, false⟩) (hp : ¬PoolMade c ends) :
    latePool c ends.pool s = dropMan s := by
  obtain ⟨hmade, -⟩ | ⟨-, err, man, hu⟩ := setPoolSize_cases c ends s.held
  · exact absurd hmade hp
  · simp [latePool, h, hu, dropMan]

theorem outNoMob_iff (hs : s.saved = p.regs) : NothingLeft p (outNoMob s) ↔
    (∀ i, (s.slots i).Clear) ∧ s.held = fifoHeld ∧ s.cman = none := by
  have hheld : (outNoMob s).held = noHeld ↔ s.held = fifoHeld := by
    simp [outNoMob, vmwFifoRelease, vmwFenceFifoDown, noHeld, fifoHeld, Held.ext_iff]
    omega
  constructor
  · intro h
    exact ⟨h.slots, hheld.1 h.held, h.cman⟩
  · rintro ⟨hslots, hh, hman⟩
    exact ⟨hslots, hheld.2 hh, hman, rfl, hs⟩

theorem takedown_cman :
    (if c.hasMob then vmwOtablesTakedown ends.otables s else s).cman = s.cman := by
  split_ifs
  · rfl
  · rfl

theorem outNoQueryBo_cman (h : s.cman ≠ none) : (outNoQueryBo c ends s).cman ≠ none := by
  obtain ⟨man, hman⟩ := Option.ne_none_iff_exists'.1 h
  unfold outNoQueryBo
  simp only [hman, takedown_cman]
  simp [outNoMob, vmwFifoRelease, vmwFenceFifoDown]

theorem outNoQueryBo_noMan (h : s.cman = none) : outNoQueryBo c ends s =
    outNoMob (if c.hasMob then vmwOtablesTakedown ends.otables s else s) := by
  unfold outNoQueryBo
  simp only [h, takedown_cman]

theorem outNoQueryBo_iff (dx : Bool) (hup : TablesUp c (begun p dx none fifoHeld) t)
    (hm : c.hasMob = true → OtablesMade ends.otables dx) :
    NothingLeft p (outNoQueryBo c ends t) ↔
      (c.hasMob = true → TakenDown ends.otables dx) := by
  rw [outNoQueryBo_noMan hup.cman]
  cases hmob : c.hasMob with
  | false =>
    rw [if_neg (by simp), hup.noMob hmob, outNoMob_iff rfl]
    exact ⟨fun _ h => absurd h (by simp), fun _ => ⟨begun_clear p dx none fifoHeld, rfl, rfl⟩⟩
  | true =>
    have hfail := otablesTakedown_spec (hm hmob) (hup.mob hmob)
    rw [if_pos rfl]
    rw [outNoMob_iff (by rw [hfail.rest]; rfl), hfail.slots]
    constructor
    · intro h _
      exact h.1
    · intro h
      exact ⟨h rfl, by rw [hfail.rest]; rfl, by rw [hfail.rest]; rfl⟩

theorem outNoMob_otables (dx : Bool) (man : Option Man) (h : Held)
    (hfail : OtablesFailed ends.otables (begun p dx man h) t) :
    NothingLeft p (outNoMob t) ↔ TakenDown ends.otables dx ∧ h = fifoHeld ∧ man = none := by
  have hheld : t.held = h := by rw [hfail.rest]; rfl
  have hman : t.cman = man := by rw [hfail.rest]; rfl
  have hsaved : t.saved = p.regs := by rw [hfail.rest]; rfl
  rw [outNoMob_iff hsaved, hfail.slots, hheld, hman]
  rfl

theorem clean_some {e : Errno} (h : vmwRequestDevice c ends p.dev = (some e, t)) :
    (∀ e t, vmwRequestDevice c ends p.dev = (some e, t) → NothingLeft p t) ↔
      NothingLeft p t := by
  constructor
  · intro hall
    exact hall e t h
  · intro hleft e' t' h'
    rw [h, Prod.mk.injEq] at h'
    exact h'.2 ▸ hleft

theorem clean_none (h : vmwRequestDevice c ends p.dev = (none, t)) :
    ∀ e t, vmwRequestDevice c ends p.dev = (some e, t) → NothingLeft p t := by
  intro e t' h'
  rw [h, Prod.mk.injEq] at h'
  exact absurd h'.1 (by simp)

theorem request_early (hs : ends.staticBuffer = true) {err : Errno}
    (h : vmwRequestDeviceLate c ends (early c ends p) = (some err, t)) :
    vmwRequestDevice c ends p.dev = (some err, outNoMob t) := by
  rw [early, fifoInit_made hs] at h
  rw [vmwRequestDevice, fifoInit_made hs]
  simp only [h]

theorem request_late (hs : ends.staticBuffer = true)
    (h : vmwRequestDeviceLate c ends (early c ends p) = (none, t)) :
    (DummyMade ends ∧ ∃ u, vmwRequestDevice c ends p.dev = (none, u)) ∨
    (¬DummyMade ends ∧ ∃ err, vmwRequestDevice c ends p.dev =
      (some err, outNoQueryBo c ends t)) := by
  rw [early, fifoInit_made hs] at h
  rw [vmwRequestDevice, fifoInit_made hs]
  simp only [h]
  obtain ⟨hmade, u, hu⟩ | ⟨hnot, err, herr⟩ := dummyCreate_cases ends t
  · exact .inl ⟨hmade, u, by rw [hu]⟩
  · exact .inr ⟨hnot, err, by rw [herr]⟩

theorem early_cases (hs : ends.staticBuffer = true) : ∃ man h,
    early c ends p = begun p (dxLeft c ends p) man h ∧
      (h = fifoHeld ∧ man = none ↔ manMade c ends = false) := by
  cases hm : manMade c ends with
  | true => exact ⟨_, _, early_made hs hm, by simp⟩
  | false => exact ⟨_, _, early_unmade hs hm, by simp⟩

theorem latePool_cases (hs : ends.staticBuffer = true) (hup : TablesUp c (early c ends p) t) :
    ((manMade c ends = true ∧ PoolMade c ends) ∧ (latePool c ends.pool t).cman ≠ none) ∨
    (¬(manMade c ends = true ∧ PoolMade c ends) ∧
      TablesUp c (begun p (dxLeft c ends p) none fifoHeld) (latePool c ends.pool t)) := by
  cases hm : manMade c ends with
  | true =>
    rw [early_made hs hm] at hup
    by_cases hp : PoolMade c ends
    · exact .inl ⟨⟨rfl, hp⟩, latePool_made hup.cman hp⟩
    · rw [latePool_unmade hup.cman hp, ← dropMan_begun p (dxLeft c ends p) (some ⟨false, false⟩)]
      exact .inr ⟨fun h => hp h.2, hup.dropMan⟩
  | false =>
    rw [early_unmade hs hm] at hup
    rw [latePool_none hup.cman]
    exact .inr ⟨by simp, hup⟩

/-- `vmw_request_device` leaves nothing behind exactly if the manager is not there when the
    object tables or the dummy query buffer fail, and all tables can be taken down. -/
theorem requestDevice_clean_iff (c : Config) (ends : RequestEnds) (p : Start) :
    (∀ e t, vmwRequestDevice c ends p.dev = (some e, t) → NothingLeft p t) ↔
      RequestOk c ends p := by
  cases hs : ends.staticBuffer with
  | false =>
    have hrun : vmwRequestDevice c ends p.dev = (some .enomem, p.dev) := by
      rw [vmwRequestDevice, fifoInit_unmade hs]
    rw [clean_some hrun]
    constructor
    · intro h
      exact ⟨fun _ => h.cman, by simp [hs], by simp [hs]⟩
    · intro h
      exact ⟨fun _ => ⟨rfl, rfl, rfl⟩, rfl, h.fifo hs, rfl, rfl⟩
  | true =>
    obtain ⟨man, h, hearly, hman⟩ := early_cases (c := c) (p := p) hs
    have hclear : ∀ j, ((early c ends p).slots j).Clear := by
      rw [hearly]
      exact begun_clear p _ _ _
    have hdx : (early c ends p).hasDx = dxLeft c ends p := by
      rw [hearly]
      rfl
    obtain ⟨hmade, t, hup, hlate⟩ | ⟨hmob, hnot, err, t, hfail, hlate⟩ :=
      late_cases c ends hclear
    · rw [hdx] at hmade
      obtain ⟨hdummy, u, hrun⟩ | ⟨hdummy, err, hrun⟩ := request_late hs hlate
      · refine iff_of_true (clean_none hrun) ⟨by simp [hs], ?_, ?_⟩
        · exact fun _ hmob hnot => absurd (hmade hmob) hnot
        · exact fun _ _ hnot => absurd hdummy hnot
      · rw [clean_some hrun]
        obtain ⟨hpool, hleft⟩ | ⟨hpool, hdown⟩ := latePool_cases hs hup
        · refine iff_of_false (fun hn => outNoQueryBo_cman hleft hn.cman) ?_
          exact fun hok => (hok.dummy hs hmade hdummy).1 hpool
        · rw [outNoQueryBo_iff _ hdown hmade]
          constructor
          · intro h
            exact ⟨by simp [hs], fun _ hmob hnot => absurd (hmade hmob) hnot,
              fun _ _ _ => ⟨hpool, h⟩⟩
          · intro hok
            exact (hok.dummy hs hmade hdummy).2
    · rw [hdx] at hnot
      rw [hearly] at hfail
      rw [clean_some (request_early hs hlate), outNoMob_otables _ man h hfail, hman]
      constructor
      · intro h
        exact ⟨by simp [hs], fun _ _ _ => ⟨h.2, h.1⟩, fun _ hmade => absurd (hmade hmob) hnot⟩
      · intro hok
        exact (hok.otables hs hmob hnot).symm

end Request

def sampleConfig : Config := ⟨⟨true, .mapPopulate, true, 24, 24⟩, true, true, true⟩

def sampleEnds (kmemdup dummy : Bool) : RequestEnds where
  staticBuffer := true
  man := ⟨true, true, true, none⟩
  otables := ⟨kmemdup, none, none, none, 1, fun _ => ⟨true, none, true⟩, fun _ => true⟩
  pool := ⟨true, none, none⟩
  dummy := ⟨dummy, none, none⟩

def sampleStart : Start := ⟨true, none, fun _ => ⟨0, none, false⟩, 0, ⟨0, 0, 0⟩, ⟨0, 0, 0⟩⟩

/-- Without the array of object tables the manager stays, without the dummy query buffer only its
    pointer. -/
theorem failed_request_leaves_manager :
    (∃ t, vmwRequestDevice sampleConfig (sampleEnds false true) sampleStart.dev =
      (some .enomem, t) ∧ t.held.managers = 1 ∧ ¬NothingLeft sampleStart t) ∧
    (∃ t, vmwRequestDevice sampleConfig (sampleEnds true false) sampleStart.dev =
      (some .enomem, t) ∧ t.held.managers = 0 ∧ ¬NothingLeft sampleStart t) := by
  constructor
  · refine ⟨_, rfl, rfl, fun h => ?_⟩
    exact absurd (congrArg Held.managers h.held) (by decide)
  · refine ⟨_, rfl, rfl, fun h => ?_⟩
    exact absurd (congrArg Option.isNone h.cman) (by decide)

end Vmwgfx.DeviceRequest

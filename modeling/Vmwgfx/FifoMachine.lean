import Vmwgfx.Word32
import Vmwgfx.RingSpan
import Vmwgfx.LabelledRuns

set_option autoImplicit false

/-!
# The command FIFO

`vmw_local_fifo_reserve` and `vmw_local_fifo_commit` of `vmwgfx_fifo.c`, with the
device consuming bytes from `SVGA_FIFO_STOP` on. The device may move before
every read of `SVGA_FIFO_STOP` and before every store to FIFO memory; `sched`
lists how many bytes it takes at each of these moments.
-/
namespace Vmwgfx.FifoMachine
open Word32

inductive Buffer where
  | fifo (addr : ℕ)
  | static
  | dynamic
  deriving DecidableEq, Repr

/-- A store to FIFO memory or to `SVGA_FIFO_NEXT_CMD`, with the pointers the device
    sees at that moment. -/
inductive Event where
  | store (addr stop nextCmd : ℕ)
  | nextCmd (old new stop : ℕ)
  deriving DecidableEq, Repr

structure Fifo where
  /-- `SVGA_FIFO_MIN`, `SVGA_FIFO_MAX`, `SVGA_FIFO_NEXT_CMD`, `SVGA_FIFO_STOP` and
      `SVGA_FIFO_RESERVED`. -/
  min : ℕ
  max : ℕ
  nextCmd : ℕ
  stop : ℕ
  reserved : ℕ
  mem : ℕ → UInt8
  /-- `SVGA_FIFO_CAP_RESERVE` is among the capabilities. -/
  reserveable : Bool
  reservedSize : ℕ
  usingBounceBuffer : Bool
  staticBuffer : ℕ → UInt8
  staticBufferSize : ℕ
  dynamicBuffer : Option (ℕ → UInt8)
  dx : Bool
  /-- `fifo_mutex` is held, from a successful reserve to its commit. -/
  locked : Bool
  /-- The pointer in the hands of the caller that holds the mutex. -/
  pointer : Option Buffer
  sched : List ℕ
  /-- The bytes the device has read, the bytes that were committed, and the
      stores made, each in order. -/
  consumed : List UInt8
  committed : List UInt8
  events : List Event

/-- Where `vmw_fifo_init` lets the commands start: past the registers, on a page of
    their own. -/
def fifoMin (extendedFifo : Bool) (memRegs : ℕ) : ℕ :=
  let min := (if extendedFifo then memRegs else 4) * 4 % 2 ^ 32
  if min < 4096 then 4096 else min

/-- The FIFO memory that the device offers: whole words, with room for commands.
    `SVGA_FIFO_SIZE_MAX` is 2 MiB, far below the bound asked for here. -/
structure Window where
  extendedFifo : Bool
  memRegs : ℕ
  mmioSize : ℕ
  aligned : mmioSize % 4 = 0
  room : fifoMin extendedFifo memRegs < mmioSize
  bounded : mmioSize ≤ 2 ^ 31

def Window.min (w : Window) : ℕ := fifoMin w.extendedFifo w.memRegs

def vmwFifoInit (w : Window) (reserveable : Bool) (mem staticBuffer : ℕ → UInt8) : Fifo where
  min := w.min
  max := w.mmioSize
  nextCmd := w.min
  stop := w.min
  reserved := 0
  mem := mem
  reserveable := reserveable
  reservedSize := 0
  usingBounceBuffer := false
  staticBuffer := staticBuffer
  staticBufferSize := 1024 * 1024
  dynamicBuffer := none
  dx := false
  locked := false
  pointer := none
  sched := []
  consumed := []
  committed := []
  events := []

def deviceByte (s : Fifo) : Fifo :=
  if s.stop = s.nextCmd then s
  else
    { s with
      consumed := s.consumed ++ [s.mem s.stop]
      stop := if s.stop + 1 = s.max then s.min else s.stop + 1 }

def deviceRun : ℕ → Fifo → Fifo
  | 0, s => s
  | k + 1, s => deviceRun k (deviceByte s)

def tick (s : Fifo) : Fifo := deviceRun (s.sched.headD 0) { s with sched := s.sched.tail }

def storeByte (s : Fifo) (addr : ℕ) (v : UInt8) : Fifo :=
  let s := tick s
  { s with
    mem := Function.update s.mem addr v
    events := s.events ++ [.store addr s.stop s.nextCmd] }

def writeNextCmd (s : Fifo) (v : ℕ) : Fifo :=
  let s := tick s
  { s with nextCmd := v, events := s.events ++ [.nextCmd s.nextCmd v s.stop] }

def vmwFifoIsFull (s : Fifo) (bytes : ℕ) : Bool × Fifo :=
  let s := tick s
  (decide (addU32 (subU32 s.max s.nextCmd) (subU32 s.stop s.min) ≤ bytes), s)

def pollFull : ℕ → Fifo → ℕ → Bool × Fifo
  | 0, s, _ => (false, s)
  | n + 1, s, bytes =>
    let r := vmwFifoIsFull s bytes
    if r.1 then pollFull n r.2 bytes else (true, r.2)

/-- `vmw_fifo_wait`: a first check, then `polls` more before the time is out. The
    flag says that it returned 0. -/
def vmwFifoWait (polls : ℕ) (s : Fifo) (bytes : ℕ) : Bool × Fifo := pollFull (polls + 1) s bytes

/-- The `out_err` exit of `vmw_local_fifo_reserve`. -/
def outErr (s : Fifo) : Option Buffer × Fifo :=
  (none, { s with reservedSize := 0, locked := false })

/-- The `need_bounce` case; `vmalloc` is what the allocation returns. -/
def takeBounce (s : Fifo) (bytes : ℕ) (vmalloc : Option (ℕ → UInt8)) : Option Buffer × Fifo :=
  let s := { s with usingBounceBuffer := true }
  if bytes < s.staticBufferSize then (some .static, s)
  else
    match vmalloc with
    | some m => (some .dynamic, { s with dynamicBuffer := some m })
    | none => outErr { s with dynamicBuffer := none }

def takeInPlace (s : Fifo) (bytes nextCmd : ℕ) (vmalloc : Option (ℕ → UInt8)) :
    Option Buffer × Fifo :=
  if s.reserveable ∨ bytes ≤ 4 then
    (some (.fifo (nextCmd / 4 * 4)),
      { s with
        usingBounceBuffer := false
        reserved := if s.reserveable then bytes else s.reserved })
  else takeBounce s bytes vmalloc

/-- The loop of `vmw_local_fifo_reserve`; each entry of `waits` is one round, with
    the number of polls a wait makes in it. A call still in the loop has no result. -/
def reserveLoop (bytes max min nextCmd : ℕ) (vmalloc : Option (ℕ → UInt8)) :
    List ℕ → Fifo → Option (Option Buffer × Fifo)
  | [], _ => none
  | polls :: waits, s =>
    let s := tick s
    let stop := s.stop
    if stop ≤ nextCmd then
      if addU32 nextCmd bytes < max ∨ (addU32 nextCmd bytes = max ∧ min < stop) then
        some (takeInPlace s bytes nextCmd vmalloc)
      else
        let r := vmwFifoIsFull s bytes
        if r.1 then
          let w := vmwFifoWait polls r.2 bytes
          if w.1 then reserveLoop bytes max min nextCmd vmalloc waits w.2
          else some (outErr w.2)
        else some (takeBounce r.2 bytes vmalloc)
    else if addU32 nextCmd bytes < stop then some (takeInPlace s bytes nextCmd vmalloc)
    else
      let w := vmwFifoWait polls s bytes
      if w.1 then reserveLoop bytes max min nextCmd vmalloc waits w.2
      else some (outErr w.2)

/-- `vmw_local_fifo_reserve`; a failed `BUG_ON` has no result either. -/
def vmwLocalFifoReserve (s : Fifo) (bytes : ℕ) (waits : List ℕ)
    (vmalloc : Option (ℕ → UInt8)) : Option (Option Buffer × Fifo) :=
  let s := { s with locked := true }
  if subU32 s.max s.min ≤ bytes then some (outErr s)
  else if s.reservedSize ≠ 0 ∨ s.dynamicBuffer.isSome then none
  else
    reserveLoop bytes s.max s.min s.nextCmd vmalloc waits { s with reservedSize := bytes }

/-- `vmw_fifo_reserve_dx` on a device without a command buffer manager. -/
def vmwFifoReserveDx (s : Fifo) (bytes ctxId : ℕ) (waits : List ℕ)
    (vmalloc : Option (ℕ → UInt8)) : Option (Option Buffer × Fifo) :=
  if ctxId = 2 ^ 32 - 1 then vmwLocalFifoReserve s bytes waits vmalloc else some (none, s)

def bounceBuffer (s : Fifo) : ℕ → UInt8 := s.dynamicBuffer.getD s.staticBuffer

/-- `n` bytes from offset `src` of `buffer` to FIFO memory at `dst`, one at a time. -/
def memcpy (buffer : ℕ → UInt8) : ℕ → ℕ → ℕ → Fifo → Fifo
  | 0, _, _, s => s
  | n + 1, dst, src, s => memcpy buffer n (dst + 1) (src + 1) (storeByte s dst (buffer src))

def vmwFifoResCopy (s : Fifo) (nextCmd max min bytes : ℕ) : Fifo :=
  let chunkSize := if bytes < subU32 max nextCmd then bytes else subU32 max nextCmd
  let buffer := bounceBuffer s
  let s := { s with reserved := bytes }
  let s := memcpy buffer chunkSize (nextCmd / 4 * 4) 0 s
  let rest := subU32 bytes chunkSize
  if rest ≠ 0 then memcpy buffer rest (min / 4 * 4) (chunkSize / 4 * 4) s else s

def vmwFifoSlowCopy (buffer : ℕ → UInt8) (max min : ℕ) : ℕ → ℕ → ℕ → Fifo → Fifo
  | 0, _, _, s => s
  | words + 1, nextCmd, src, s =>
    let s := memcpy buffer 4 (nextCmd / 4 * 4) src s
    let nextCmd := if addU32 nextCmd 4 = max then min else addU32 nextCmd 4
    vmwFifoSlowCopy buffer max min words nextCmd (src + 4) (writeNextCmd s nextCmd)

def unbounce (s : Fifo) (nextCmd max min bytes : ℕ) : Fifo :=
  if s.usingBounceBuffer then
    let s :=
      if s.reserveable then vmwFifoResCopy s nextCmd max min bytes
      else vmwFifoSlowCopy (bounceBuffer s) max min (bytes / 4) nextCmd 0 s
    { s with dynamicBuffer := none }
  else s

/-- The update of `SVGA_FIFO_NEXT_CMD` at the end of a commit. -/
def publish (s : Fifo) (nextCmd max min bytes : ℕ) : Fifo :=
  if s.usingBounceBuffer ∨ s.reserveable then
    let nextCmd := addU32 nextCmd bytes
    writeNextCmd s (if max ≤ nextCmd then subU32 nextCmd (subU32 max min) else nextCmd)
  else s

def release (s : Fifo) : Fifo :=
  { s with
    reserved := if s.reserveable then 0 else s.reserved
    locked := false
    pointer := none }

/-- `vmw_local_fifo_commit`; a failed `BUG_ON` has no result. -/
def vmwLocalFifoCommit (s : Fifo) (bytes : ℕ) : Option Fifo :=
  let nextCmd := s.nextCmd
  let bytes := if s.dx then addU32 bytes 12 else bytes
  let s := { s with dx := false }
  if bytes % 4 ≠ 0 ∨ s.reservedSize < bytes then none
  else
    let s := { s with reservedSize := 0 }
    let s := unbounce s nextCmd s.max s.min bytes
    some (release (publish s nextCmd s.max s.min bytes))

def callerByte (s : Fifo) (i : ℕ) : UInt8 :=
  match s.pointer with
  | some (.fifo addr) => s.mem (addr + i)
  | some .static => s.staticBuffer i
  | some .dynamic => s.dynamicBuffer.getD s.staticBuffer i
  | none => 0

def callerStore (s : Fifo) (i : ℕ) (v : UInt8) : Option Fifo :=
  if i < s.reservedSize then
    match s.pointer with
    | some (.fifo addr) => some (storeByte s (addr + i) v)
    | some .static => some { s with staticBuffer := Function.update s.staticBuffer i v }
    | some .dynamic =>
      some { s with dynamicBuffer := s.dynamicBuffer.map fun m => Function.update m i v }
    | none => none
  else none

inductive Act where
  | reserve (bytes ctxId : ℕ) (waits : List ℕ) (vmalloc : Option (ℕ → UInt8)) (sched : List ℕ)
  | store (i : ℕ) (v : UInt8) (sched : List ℕ)
  | commit (bytes : ℕ) (sched : List ℕ)
  | device (k : ℕ)

/-- The mutex orders the submitters: a reserve waits until the last one was
    committed, and only the caller with the pointer commits. -/
def step (s : Fifo) : Act → Option Fifo
  | .reserve bytes ctxId waits vmalloc sched =>
    if s.locked then none
    else
      (vmwFifoReserveDx { s with sched := sched } bytes ctxId waits vmalloc).map
        fun r => { r.2 with pointer := r.1 }
  | .store i v sched => callerStore { s with sched := sched } i v
  | .commit bytes sched =>
    if s.pointer = none then none
    else
      (vmwLocalFifoCommit { s with sched := sched } bytes).map fun t =>
        { t with committed := s.committed ++ (List.range bytes).map (callerByte s) }
  | .device k => some (deviceRun k s)

end Vmwgfx.FifoMachine

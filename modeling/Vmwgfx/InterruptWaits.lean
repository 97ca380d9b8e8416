import Vmwgfx.LabelledRuns

set_option autoImplicit false

/-!
# Waits for interrupts

The waits of `vmwgfx_irq.c` and `vmwgfx_fifo.c` with the interrupt handler, its thread and the
device, each of which goes on at any time. What is done to the registers and to the masks between
two accesses that another party can see is a step of its own. The number of completed markers and
the free space of the FIFO stand for the conditions that `vmw_seqno_passed` and `vmw_fifo_is_full`
compute.
-/
namespace Vmwgfx.InterruptWaits
open LabelledRuns

inductive Flag where
  | anyFence
  | fifoProgress
  | fenceGoal
  | commandBuffer
  | error
  deriving DecidableEq

inductive Want where
  /-- `vmw_wait_seqno` -/
  | seqno (n : ℕ) (intr : Bool)
  /-- `vmw_fifo_wait` -/
  | fifo (bytes : ℕ) (intr : Bool)
  /-- Any other caller, until it calls `vmw_generic_waiter_remove`. -/
  | hold (f : Flag)
  deriving DecidableEq

def Want.flag : Want → Flag
  | .seqno .. => .anyFence
  | .fifo .. => .fifoProgress
  | .hold f => f

def Want.intr : Want → Bool
  | .seqno _ intr | .fifo _ intr => intr
  | .hold _ => false

inductive Ret where
  | ok
  | ebusy
  | erestartsys
  deriving DecidableEq

/-- Where a call stands. From `addAck` to `addWrite` and from `removeMask` on it has
    `waiter_lock`. -/
inductive Phase where
  | idle
  | start (w : Want)
  | add (w : Want)
  | addAck (w : Want)
  | addMask (w : Want)
  | addWrite (w : Want)
  /-- The condition is evaluated for the first time. -/
  | test (w : Want)
  | prepare (w : Want) (expired : Bool)
  | check (w : Want) (expired : Bool)
  | sleep (w : Want)
  | remove (w : Want) (r : Ret)
  | removeMask (w : Want) (r : Ret)
  | removeWrite (w : Want) (r : Ret)
  | finished (w : Want) (r : Ret)
  deriving DecidableEq

/-- Where `vmw_irq_handler` stands; `st` is the status it has read, `m` what the mask leaves of it
    and `wake` says that it will return `IRQ_WAKE_THREAD`. -/
inductive Handler where
  | idle
  | mask (st : Finset Flag)
  | ack (st m : Finset Flag)
  | fifo (m : Finset Flag)
  | fence (m : Finset Flag)
  | cmdbuf (m : Finset Flag) (wake : Bool)
  | ret (wake : Bool)
  deriving DecidableEq

inductive Thread where
  | idle
  | fence
  | update
  | wake
  | cmdbuf
  deriving DecidableEq

/-- `status` is the port `VMWGFX_IRQSTATUS_PORT`, `deviceMask` the register `SVGA_REG_IRQMASK`,
    `raising` the events that the device has still to post, and `pendingFence` and `pendingCmdbuf`
    are the bits of `irqthread_pending`. -/
structure Sys where
  status : Finset Flag
  deviceMask : Finset Flag
  raising : Finset Flag
  completed : ℕ
  space : ℕ
  irqMask : Finset Flag
  waiters : Flag → ℕ
  lock : Option ℕ
  pendingFence : Bool
  pendingCmdbuf : Bool
  woken : Bool
  handler : Handler
  thread : Thread
  phase : ℕ → Phase
  awake : ℕ → Bool

def setPhase (p : ℕ) (x : Phase) (s : Sys) : Sys := { s with phase := Function.update s.phase p x }

def ready (s : Sys) : Want → Bool
  | .seqno n _ => decide (n ≤ s.completed)
  | .fifo bytes _ => decide (bytes ≤ s.space)
  | .hold _ => true

/-- The phases in which a call is on the queue that is woken for a flag. -/
def queued (f : Flag) : Phase → Bool
  | .check w _ | .sleep w => decide (w.flag = f)
  | _ => false

def wakeUpAll (f : Flag) (s : Sys) : Sys :=
  { s with awake := fun p => s.awake p || queued f (s.phase p) }

structure Env where
  expired : Bool
  pending : Bool
  deriving DecidableEq

/-- The outcome of a test of the condition in the loop of `wait_event_timeout`. -/
def checked (p : ℕ) (env : Env) (w : Want) (expired : Bool) (s : Sys) : Sys :=
  if ready s w then setPhase p (.remove w .ok) { s with awake := Function.update s.awake p true }
  else if expired then
    setPhase p (.remove w .ebusy) { s with awake := Function.update s.awake p true }
  else if w.intr && env.pending then
    setPhase p (.remove w .erestartsys) { s with awake := Function.update s.awake p true }
  else setPhase p (.sleep w) s

/-- `vmw_generic_waiter_add` and `vmw_generic_waiter_remove` with what is between them. -/
def next (p : ℕ) (env : Env) (s : Sys) : Option Sys :=
  match s.phase p with
  | .idle | .finished .. => none
  | .start (.hold f) => some (setPhase p (.add (.hold f)) s)
  | .start w => some (setPhase p (if ready s w then .finished w .ok else .add w) s)
  | .add w =>
    if s.lock = none then
      let s' := { s with waiters := Function.update s.waiters w.flag (s.waiters w.flag + 1) }
      if s.waiters w.flag = 0 then some (setPhase p (.addAck w) { s' with lock := some p })
      else some (setPhase p (.test w) s')
    else none
  | .addAck w => some (setPhase p (.addMask w) { s with status := s.status.erase w.flag })
  | .addMask w => some (setPhase p (.addWrite w) { s with irqMask := insert w.flag s.irqMask })
  | .addWrite w => some (setPhase p (.test w) { s with deviceMask := s.irqMask, lock := none })
  | .test (.hold f) => some (setPhase p (.remove (.hold f) .ok) s)
  | .test w => some (setPhase p (if ready s w then .remove w .ok else .prepare w false) s)
  | .prepare w expired =>
    some (setPhase p (.check w expired) { s with awake := Function.update s.awake p false })
  | .check w expired => some (checked p env w expired s)
  | .sleep w =>
    if s.awake p || env.expired || (w.intr && env.pending) then
      some (setPhase p (.prepare w env.expired) { s with awake := Function.update s.awake p true })
    else none
  | .remove w r =>
    if s.lock = none then
      let s' := { s with waiters := Function.update s.waiters w.flag (s.waiters w.flag - 1) }
      if s.waiters w.flag - 1 = 0 then
        some (setPhase p (.removeMask w r) { s' with lock := some p })
      else some (setPhase p (.finished w r) s')
    else none
  | .removeMask w r =>
    some (setPhase p (.removeWrite w r) { s with irqMask := s.irqMask.erase w.flag })
  | .removeWrite w r =>
    some (setPhase p (.finished w r) { s with deviceMask := s.irqMask, lock := none })

/-- The flags for which the handler leaves something to its thread. -/
def forFences (m : Finset Flag) : Bool := decide (.anyFence ∈ m ∨ .fenceGoal ∈ m)

def forCmdbuf (m : Finset Flag) : Bool := decide (.commandBuffer ∈ m ∨ .error ∈ m)

def vmwIrqHandler (s : Sys) : Sys :=
  match s.handler with
  | .idle => { s with handler := if s.status = ∅ then .idle else .mask s.status }
  | .mask st => { s with handler := .ack st (st ∩ s.irqMask) }
  | .ack st m => { s with status := s.status \ st, handler := .fifo m }
  | .fifo m =>
    let s := { s with handler := .fence m }
    if .fifoProgress ∈ m then wakeUpAll .fifoProgress s else s
  | .fence m =>
    if forFences m && !s.pendingFence then
      { s with pendingFence := true, handler := .cmdbuf m true }
    else { s with handler := .cmdbuf m false }
  | .cmdbuf m wake =>
    if forCmdbuf m && !s.pendingCmdbuf then { s with pendingCmdbuf := true, handler := .ret true }
    else { s with handler := .ret wake }
  | .ret wake => { s with woken := s.woken || wake, handler := .idle }

def vmwThreadFn (s : Sys) : Option Sys :=
  match s.thread with
  | .idle => if s.woken then some { s with woken := false, thread := .fence } else none
  | .fence =>
    some { s with pendingFence := false, thread := if s.pendingFence then .update else .cmdbuf }
  | .update => some { s with thread := .wake }
  | .wake => some (wakeUpAll .anyFence { s with thread := .cmdbuf })
  | .cmdbuf => some { s with pendingCmdbuf := false, thread := .idle }

/-- What the device does, and what becomes of the free space. -/
inductive Event where
  | complete (k : ℕ)
  | consume (k : ℕ)
  /-- Space is taken by a caller that writes to the FIFO. -/
  | fill (k : ℕ)
  /-- What was announced is posted. -/
  | post (f : Flag)
  /-- Any other event. -/
  | other (f : Flag)
  deriving DecidableEq

def device (s : Sys) : Event → Sys
  | .complete k => { s with completed := s.completed + k, raising := insert .anyFence s.raising }
  | .consume k => { s with space := s.space + k, raising := insert .fifoProgress s.raising }
  | .fill k => { s with space := s.space - k }
  | .post f =>
    if f ∈ s.raising then { s with raising := s.raising.erase f, status := insert f s.status }
    else s
  | .other f => { s with status := insert f s.status }

inductive Act where
  | call (p : ℕ) (w : Want)
  | next (p : ℕ) (env : Env)
  | handler
  | thread
  | device (e : Event)
  deriving DecidableEq

def step (s : Sys) : Act → Option Sys
  | .call p w => if s.phase p = .idle then some (setPhase p (.start w) s) else none
  | .next p env => next p env s
  | .handler => some (vmwIrqHandler s)
  | .thread => vmwThreadFn s
  | .device e => some (device s e)

def start : Sys where
  status := ∅
  deviceMask := ∅
  raising := ∅
  completed := 0
  space := 0
  irqMask := ∅
  waiters := fun _ => 0
  lock := none
  pendingFence := false
  pendingCmdbuf := false
  woken := false
  handler := .idle
  thread := .idle
  phase := fun _ => .idle
  awake := fun _ => true

/-- The handler acknowledges no flag that it has masked out and that somebody has begun to wait
    for since. -/
def Undisturbed (s : Sys) : Act → Prop
  | .handler =>
    match s.handler with
    | .ack st m => ∀ f ∈ st, f ∉ m → f ∉ s.irqMask
    | _ => True
  | _ => True

instance (s : Sys) (a : Act) : Decidable (Undisturbed s a) := by
  unfold Undisturbed
  split
  · split <;> infer_instance
  · infer_instance

end Vmwgfx.InterruptWaits

import Vmwgfx.LabelledRuns

set_option autoImplicit false

/-!
# The callbacks of a fence

`core/dma-fence.c` for one fence and any number of calls at a time. What is done to the flags
without the lock of the fence, and between two such accesses, is a step of its own. A callback is
named by the call that registers it.
-/
namespace Vmwgfx.FenceCallbacks
open LabelledRuns

inductive Kind where
  | signal
  /-- A caller that takes the lock itself. -/
  | signalLocked
  | addCallback
  | defaultWait (intr : Bool)
  | enableSwSignaling
  | removeCallback (c : ℕ)
  deriving DecidableEq

inductive Ret where
  | ok
  | einval
  | enoent
  | erestartsys
  | timedOut
  /-- What `dma_fence_remove_callback` returns. -/
  | removed (b : Bool)
  deriving DecidableEq

/-- Where a call stands. From `enable` to `loop` it has the lock. -/
inductive Phase where
  | idle
  | start (k : Kind)
  /-- `dma_fence_signal` has set the flag. -/
  | flagged
  /-- `dma_fence_enable_sw_signaling` has set its flag. -/
  | swFlagged
  | lock (k : Kind)
  | enable (k : Kind)
  | test (k : Kind) (wasSet : Bool)
  | ask (k : Kind)
  | signal (k : Kind)
  | run (k : Kind) (r : Ret)
  | link (k : Kind)
  | loop (intr : Bool) (r : Ret)
  | asleep (intr : Bool)
  | relock (intr : Bool) (r : Ret)
  | finished (k : Kind) (r : Ret)
  deriving DecidableEq

/-- `struct dma_fence` with the calls on it. `awake` is the state of the task of a call, `called`
    and `removed` are the callbacks that were, and `asked` counts the calls of
    `enable_signaling`. -/
structure Sys where
  signaled : Bool
  enabled : Bool
  lock : Option ℕ
  cbList : List ℕ
  phase : ℕ → Phase
  awake : ℕ → Bool
  called : List ℕ
  removed : List ℕ
  asked : ℕ

/-- What `enable_signaling` returns, whether a signal is pending and whether the time is up. -/
structure Env where
  enabling : Bool
  pending : Bool
  expired : Bool
  deriving DecidableEq

def setPhase (p : ℕ) (x : Phase) (s : Sys) : Sys := { s with phase := Function.update s.phase p x }

def unlock (p : ℕ) (x : Phase) (s : Sys) : Sys := setPhase p x { s with lock := none }

def locked (p : ℕ) (env : Env) (s : Sys) : Kind → Sys
  | .signal => setPhase p (.run .signal .ok) { s with lock := some p }
  | .signalLocked => setPhase p (.signal .signalLocked) { s with lock := some p }
  | .addCallback => setPhase p (.enable .addCallback) { s with lock := some p }
  | .defaultWait intr =>
    if intr && env.pending then setPhase p (.finished (.defaultWait intr) .erestartsys) s
    else setPhase p (.enable (.defaultWait intr)) { s with lock := some p }
  | .enableSwSignaling => setPhase p (.ask .enableSwSignaling) { s with lock := some p }
  | .removeCallback c =>
    if c ∈ s.cbList then
      setPhase p (.finished (.removeCallback c) (.removed true))
        { s with cbList := s.cbList.erase c, removed := c :: s.removed }
    else setPhase p (.finished (.removeCallback c) (.removed false)) s

def late : Kind → Ret
  | .addCallback => .enoent
  | _ => .ok

def begin' (p : ℕ) (s : Sys) : Kind → Sys
  | .signal =>
    if s.signaled then setPhase p (.finished .signal .einval) s
    else setPhase p .flagged { s with signaled := true }
  | .enableSwSignaling =>
    setPhase p (if s.enabled then .finished .enableSwSignaling .ok else .swFlagged)
      { s with enabled := true }
  | .addCallback =>
    setPhase p (if s.signaled then .finished .addCallback .enoent else .lock .addCallback) s
  | .defaultWait intr =>
    setPhase p (if s.signaled then .finished (.defaultWait intr) .ok else .lock (.defaultWait intr))
      s
  | k => setPhase p (.lock k) s

/-- The answer of `enable_signaling`: without it the fence is signaled at once. -/
def answered (p : ℕ) (s : Sys) (k : Kind) (yes : Bool) : Sys :=
  let s := { s with asked := s.asked + 1 }
  if yes then
    if k = .enableSwSignaling then unlock p (.finished k .ok) s else setPhase p (.link k) s
  else setPhase p (.signal k) s

def ranAll (k : Kind) (r : Ret) : Ret :=
  match k with
  | .signalLocked => r
  | k => late k

def next (p : ℕ) (env : Env) (s : Sys) : Option Sys :=
  match s.phase p with
  | .idle | .finished .. => none
  | .start k => some (begin' p s k)
  | .flagged =>
    some (setPhase p (if s.enabled then .lock .signal else .finished .signal .ok) s)
  | .swFlagged =>
    some (setPhase p (if s.signaled then .finished .enableSwSignaling .ok
      else .lock .enableSwSignaling) s)
  | .lock k => if s.lock = none then some (locked p env s k) else none
  | .enable k => some (setPhase p (.test k s.enabled) { s with enabled := true })
  | .test k wasSet =>
    if s.signaled then some (unlock p (.finished k (late k)) s)
    else some (setPhase p (if wasSet then .link k else .ask k) s)
  | .ask k => some (answered p s k env.enabling)
  | .signal k =>
    some (setPhase p (.run k (if s.signaled then .einval else .ok)) { s with signaled := true })
  | .run k r =>
    match s.cbList with
    | c :: rest =>
      some { s with
        cbList := rest
        called := c :: s.called
        awake := Function.update s.awake c true }
    | [] => some (unlock p (.finished k (ranAll k r)) s)
  | .link (.defaultWait intr) =>
    some (setPhase p (.loop intr .ok) { s with cbList := p :: s.cbList })
  | .link k => some (unlock p (.finished k .ok) { s with cbList := s.cbList ++ [p] })
  | .loop intr r =>
    if s.signaled = false ∧ r = .ok then
      some (unlock p (.asleep intr) { s with awake := Function.update s.awake p false })
    else
      some (unlock p (.finished (.defaultWait intr) r)
        { s with cbList := s.cbList.erase p, awake := Function.update s.awake p true })
  | .asleep intr =>
    if s.awake p || env.expired || (intr && env.pending) then
      some (setPhase p (.relock intr (if env.expired then .timedOut else .ok))
        { s with awake := Function.update s.awake p true })
    else none
  | .relock intr r =>
    if s.lock = none then
      some (setPhase p (.loop intr (if r = .ok ∧ (intr && env.pending) = true then .erestartsys
        else r)) { s with lock := some p })
    else none

inductive Act where
  | call (k : Kind)
  | next (env : Env)

/-- A callback is removed only after the call that registers it. -/
def callable (s : Sys) : Kind → Bool
  | .removeCallback c =>
    match s.phase c with
    | .finished .addCallback _ => true
    | _ => false
  | _ => true

def step (s : Sys) : ℕ × Act → Option Sys
  | (p, .call k) =>
    if s.phase p = .idle ∧ callable s k = true then some (setPhase p (.start k) s) else none
  | (p, .next env) => next p env s

def start : Sys where
  signaled := false
  enabled := false
  lock := none
  cbList := []
  phase := fun _ => .idle
  awake := fun _ => true
  called := []
  removed := []
  asked := 0

end Vmwgfx.FenceCallbacks

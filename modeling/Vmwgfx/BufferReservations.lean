import Vmwgfx.ExecbufState
import Vmwgfx.LabelledRuns

set_option autoImplicit false

/-!
# Reservations of many buffers

`core/ww_mutex.c` with `ttm_eu_reserve_buffers`, `ttm_eu_backoff_reservation` and
`ttm_eu_fence_buffer_objects` of `ttm_execbuf_util.c`, and `ttm_bo_reserve` without a ticket. Any
number of calls run at a time, each with its own ticket. A section under the lock of the class is
one step, and so is what a call does between two of them.
-/
namespace Vmwgfx.BufferReservations
open ExecbufState (Errno)

/-- `struct ww_mutex`. A holder without a context leaves `holder` NULL. -/
structure WwMutex where
  held : Bool
  holder : Option ℕ
  deriving DecidableEq

structure WwAcquireCtx where
  ticket : ℕ
  contendingLock : Option ℕ
  deriving DecidableEq

/-- The class with its mutexes, one for each buffer, and the contexts of the calls. -/
structure Locks where
  lock : ℕ → WwMutex
  ctx : ℕ → WwAcquireCtx
  seqno : ℕ

/-- What `__wwl_mutex_lock` leaves in `*err`. -/
inductive LockEnd where
  | ok
  | ealready
  | edeadlk
  deriving DecidableEq

def setContending (c : ℕ) (x : Option ℕ) (l : Locks) : Locks :=
  { l with ctx := Function.update l.ctx c { l.ctx c with contendingLock := x } }

def wwAcquireInit (c : ℕ) (l : Locks) : Locks :=
  { l with seqno := l.seqno + 1, ctx := Function.update l.ctx c ⟨l.seqno + 1, none⟩ }

/-- The `WARN_ON` of `__wwl_mutex_lock`. -/
def warnOn (b : ℕ) (c : Option ℕ) (l : Locks) : Bool :=
  c.any fun c => (l.ctx c).contendingLock.isSome && decide ((l.ctx c).contendingLock ≠ some b)

def takeLock (b : ℕ) (c : Option ℕ) (l : Locks) : Locks :=
  let t := { l with lock := Function.update l.lock b ⟨true, c⟩ }
  match c with
  | some c => if (l.ctx c).contendingLock = some b then setContending c none t else t
  | none => t

/-- `__wwl_mutex_lock` behind its `WARN_ON`; without a result the caller has to wait. -/
def wwlMutexLock (b : ℕ) (c : Option ℕ) (l : Locks) : Option (LockEnd × Locks) :=
  if (l.lock b).held = false then some (.ok, takeLock b c l)
  else
    match c with
    | none => none
    | some c =>
      if (l.lock b).holder = some c then some (.ealready, l)
      else
        match (l.lock b).holder with
        | none => none
        | some q =>
          if (l.ctx c).contendingLock ≠ some b ∧ (l.ctx q).ticket < (l.ctx c).ticket then
            some (.edeadlk, setContending c (some b) l)
          else none

def wwMutexUnlock (b : ℕ) (l : Locks) : Locks :=
  { l with lock := Function.update l.lock b ⟨false, none⟩ }

/-- `struct ttm_validate_buffer`. -/
structure Entry where
  bo : ℕ
  shared : Bool
  deriving DecidableEq

def bos (list : List Entry) : List ℕ := list.map Entry.bo

/-- Where a back-off leads: to the slow lock of the contended entry, or out of the call. -/
inductive After where
  | slow (before : List Entry) (entry : Entry) (todo : List Entry)
  | fail (e : Errno)

/-- Where a call stands. The list is what `before`, the entry and `todo` make up. -/
inductive Phase where
  | idle
  | walk (before todo : List Entry)
  | got (before : List Entry) (entry : Entry) (todo : List Entry)
  | drop (left : List ℕ) (next : After)
  | slow (before : List Entry) (entry : Entry) (todo : List Entry)
  | reserved (list : List Entry)
  | release (left : List Entry)
  | alone (b : ℕ) (noWait : Bool)
  | single (b : ℕ)
  | finished

/-- A call of `ttm_eu_reserve_buffers` with the release that follows it, or one of
    `ttm_bo_reserve`. `given` is the list that was handed over, and `lost` are the buffers that
    an error leaves reserved. -/
structure Call where
  phase : Phase
  ticket : Bool
  intr : Bool
  wantsDups : Bool
  dups : List Entry
  ret : Option Errno
  given : List Entry
  lost : List ℕ

def noCall : Call := ⟨.idle, false, false, false, [], none, [], []⟩

/-- The buffers as TTM has them: `onLru` is `!list_empty(&bo->lru)`, and `bug` says that the
    `BUG_ON` of `ttm_bo_add_to_lru` was hit. -/
structure Sys where
  locks : Locks
  call : ℕ → Call
  onLru : ℕ → Bool
  noEvict : ℕ → Bool
  bug : Bool

/-- What the surroundings do: a signal is pending, a client has CPU access to the buffer, and
    `reservation_object_reserve_shared` finds no memory. -/
structure Env where
  signal : Bool
  cpuWriters : Bool
  noMem : Bool
  deriving DecidableEq

def ebusy : Errno := .other 16

def ealready : Errno := .other 114

def errno : LockEnd → Errno
  | .edeadlk => .other 35
  | _ => ealready

def setCall (p : ℕ) (c : Call) (s : Sys) : Sys := { s with call := Function.update s.call p c }

def setPhase (p : ℕ) (x : Phase) (s : Sys) : Sys := setCall p { s.call p with phase := x } s

def finish (p : ℕ) (e : Option Errno) (s : Sys) : Sys :=
  setCall p { s.call p with phase := .finished, ret := e } s

def setLocks (l : Locks) (s : Sys) : Sys := { s with locks := l }

def ctxOf (c : Call) (p : ℕ) : Option ℕ := if c.ticket then some p else none

/-- `ttm_eu_backoff_reservation_reverse` is still to be done, and then comes `next`. -/
def backOff (p : ℕ) (before : List Entry) (next : After) (s : Sys) : Sys :=
  setPhase p (.drop (bos before).reverse next) s

/-- `__ttm_bo_reserve` for an entry of the list. -/
def lockEntry (p : ℕ) (env : Env) (before : List Entry) (e : Entry) (todo : List Entry) (s : Sys) :
    Option Sys :=
  match wwlMutexLock e.bo (ctxOf (s.call p) p) s.locks with
  | none =>
    if (s.call p).ticket = false then some (backOff p before (.fail ebusy) s)
    else if (s.call p).intr && env.signal then some (backOff p before (.fail .erestartsys) s)
    else none
  | some (.ok, l) => some (setPhase p (.got before e todo) (setLocks l s))
  | some (.ealready, l) =>
    if (s.call p).wantsDups then
      some (setCall p { s.call p with phase := .walk before todo, dups := e :: (s.call p).dups }
        (setLocks l s))
    else some (backOff p before (.fail ealready) (setLocks l s))
  | some (.edeadlk, l) => some (backOff p before (.slow before e todo) (setLocks l s))

def checkEntry (p : ℕ) (env : Env) (before : List Entry) (e : Entry) (todo : List Entry) (s : Sys) :
    Sys :=
  if env.cpuWriters then setPhase p (.drop (e.bo :: (bos before).reverse) (.fail ebusy)) s
  else if e.shared && env.noMem then
    -- the entry itself is not among those that are unreserved
    setCall p { s.call p with
      phase := .drop (bos before).reverse (.fail .enomem), lost := [e.bo] } s
  else setPhase p (.walk (before ++ [e]) todo) s

/-- What is done once the contended entry is locked: it moves to the front of the list. -/
def lockedSlow (p : ℕ) (env : Env) (before : List Entry) (e : Entry) (todo : List Entry) (s : Sys) :
    Sys :=
  if e.shared && env.noMem then
    setCall p { s.call p with phase := .finished, ret := some .enomem, lost := [e.bo] } s
  else setPhase p (.walk [e] (before ++ todo)) s

/-- `ww_mutex_lock_slow` for the contended entry; the uninterruptible one has no result. -/
def lockSlow (p : ℕ) (env : Env) (before : List Entry) (e : Entry) (todo : List Entry) (s : Sys) :
    Option Sys :=
  match wwlMutexLock e.bo (some p) s.locks with
  | none => if (s.call p).intr && env.signal then some (finish p (some .erestartsys) s) else none
  | some (r, l) =>
    if (s.call p).intr && decide (r ≠ .ok) then some (finish p (some (errno r)) (setLocks l s))
    else some (lockedSlow p env before e todo (setLocks l s))

/-- `ttm_bo_add_to_lru`. -/
def addToLru (b : ℕ) (s : Sys) : Sys :=
  if s.noEvict b then s
  else { s with bug := s.bug || s.onLru b, onLru := Function.update s.onLru b true }

def delFromLru (l : List ℕ) (s : Sys) : Sys :=
  { s with onLru := fun b => s.onLru b && decide (b ∉ l) }

def unlock (b : ℕ) (s : Sys) : Sys := setLocks (wwMutexUnlock b s.locks) s

/-- `ttm_bo_reserve` without a ticket. -/
def lockAlone (p : ℕ) (env : Env) (b : ℕ) (noWait : Bool) (s : Sys) : Option Sys :=
  match wwlMutexLock b none s.locks with
  | none =>
    if noWait then some (finish p (some ebusy) s)
    else if (s.call p).intr && env.signal then some (finish p (some .erestartsys) s)
    else none
  | some (_, l) => some (setPhase p (.single b) (delFromLru [b] (setLocks l s)))

inductive Act where
  /-- `ttm_eu_reserve_buffers`. -/
  | reserveBuffers (list : List Entry) (ticket intr wantsDups : Bool)
  | lockNext (env : Env)
  | check (env : Env)
  | dropNext
  | dropped
  | slowLock (env : Env)
  | listDone
  /-- `ttm_eu_backoff_reservation` or `ttm_eu_fence_buffer_objects`. -/
  | unreserve
  | unreserveNext
  | unreserved
  /-- `ttm_bo_reserve` and `ttm_bo_unreserve`. -/
  | boReserve (b : ℕ) (noWait intr : Bool)
  | boLock (env : Env)
  | boUnreserve
  /-- `TTM_PL_FLAG_NO_EVICT` of a reserved buffer. -/
  | place (b : ℕ) (noEvict : Bool)

/-- The buffers that a call has taken off the LRU lists. -/
def detached : Phase → List ℕ
  | .reserved list => bos list
  | .release left => bos left
  | .single b => [b]
  | _ => []

def newCall (list : List Entry) (ticket intr wantsDups : Bool) : Call :=
  { noCall with
    phase := if list = [] then .reserved [] else .walk [] list
    ticket := ticket, intr := intr, wantsDups := wantsDups, given := list }

def step (s : Sys) : ℕ × Act → Option Sys
  | (p, .reserveBuffers list ticket intr wantsDups) =>
    match (s.call p).phase with
    | .idle =>
      some (setCall p (newCall list ticket intr wantsDups)
        (if ticket && !list.isEmpty then setLocks (wwAcquireInit p s.locks) s else s))
    | _ => none
  | (p, .lockNext env) =>
    match (s.call p).phase with
    | .walk before (e :: todo) => lockEntry p env before e todo s
    | _ => none
  | (p, .check env) =>
    match (s.call p).phase with
    | .got before e todo => some (checkEntry p env before e todo s)
    | _ => none
  | (p, .dropNext) =>
    match (s.call p).phase with
    | .drop (b :: left) next => some (setPhase p (.drop left next) (unlock b s))
    | _ => none
  | (p, .dropped) =>
    match (s.call p).phase with
    | .drop [] (.slow before e todo) => some (setPhase p (.slow before e todo) s)
    | .drop [] (.fail e) => some (finish p (some e) s)
    | _ => none
  | (p, .slowLock env) =>
    match (s.call p).phase with
    | .slow before e todo => lockSlow p env before e todo s
    | _ => none
  | (p, .listDone) =>
    match (s.call p).phase with
    | .walk list [] => some (setPhase p (.reserved list) (delFromLru (bos list) s))
    | _ => none
  | (p, .unreserve) =>
    match (s.call p).phase with
    | .reserved list => some (setPhase p (.release list) s)
    | _ => none
  | (p, .unreserveNext) =>
    match (s.call p).phase with
    | .release (e :: left) => some (setPhase p (.release left) (unlock e.bo (addToLru e.bo s)))
    | _ => none
  | (p, .unreserved) =>
    match (s.call p).phase with
    | .release [] => some (finish p none s)
    | _ => none
  | (p, .boReserve b noWait intr) =>
    match (s.call p).phase with
    | .idle => some (setCall p { noCall with phase := .alone b noWait, intr := intr } s)
    | _ => none
  | (p, .boLock env) =>
    match (s.call p).phase with
    | .alone b noWait => lockAlone p env b noWait s
    | _ => none
  | (p, .boUnreserve) =>
    match (s.call p).phase with
    | .single b => some (finish p none (unlock b (addToLru b s)))
    | _ => none
  | (p, .place b noEvict) =>
    if b ∈ detached (s.call p).phase then
      some { s with noEvict := Function.update s.noEvict b noEvict }
    else none

/-- No call has begun, and the buffers that may be evicted are on the LRU lists. -/
def start (noEvict : ℕ → Bool) : Sys where
  locks := ⟨fun _ => ⟨false, none⟩, fun _ => ⟨0, none⟩, 0⟩
  call := fun _ => noCall
  onLru := fun b => !noEvict b
  noEvict := noEvict
  bug := false

end Vmwgfx.BufferReservations

import Vmwgfx.ExecbufState
import Vmwgfx.LabelledRuns
import Vmwgfx.Shares

set_option autoImplicit false

/-!
# Video overlays

`vmwgfx_overlay.c` with the functions of `vmwgfx_bo.c` that pin and unpin a buffer. A
`BUG_ON` ends a run: such a call has no result. The calls are serialised by
`overlay->mutex`; whatever else pins or references buffers may run between them.
-/
namespace Vmwgfx.Overlay
open ExecbufState (Errno)

structure Rect where
  x : ℤ
  y : ℤ
  w : ℕ
  h : ℕ
  deriving DecidableEq, Repr

structure ControlStreamArg where
  streamId : ℕ
  enabled : Bool
  flags : ℕ
  colorKey : ℕ
  handle : ℕ
  offset : ℕ
  format : ℤ
  size : ℕ
  width : ℕ
  height : ℕ
  pitch : ℕ × ℕ × ℕ
  src : Rect
  dst : Rect
  deriving DecidableEq, Repr

structure Stream where
  buf : Option ℕ
  claimed : Bool
  paused : Bool
  saved : ControlStreamArg
  deriving DecidableEq, Repr

inductive FifoCmd where
  | setRegs (buf : ℕ) (arg : ControlStreamArg)
  | stop (streamId : ℕ)
  deriving DecidableEq, Repr

/-- The overlay with the reference and pin counts of the buffers. `otherRefs` and
    `otherPins` are the references and pins that have other owners than the streams;
    `pinnedBo` and the dummy query buffer are among these owners. -/
structure OverlayDev where
  present : Bool
  available : Bool
  /-- `active_display_unit == vmw_du_legacy`. -/
  legacyDisplay : Bool
  stream : ℕ → Stream
  refs : ℕ → ℤ
  pinCount : ℕ → ℤ
  pinnedBo : Option ℕ
  dummyQueryBo : ℕ
  dummyQueryBoPinned : Bool
  fifo : List FifoCmd
  otherRefs : ℕ → ℤ
  otherPins : ℕ → ℤ

/-- `VMW_MAX_NUM_STREAMS`; the functions below are defined for any number of streams. -/
def vmwMaxNumStreams : ℕ := 1

/-- The error that is returned, if any, and the state; nothing after a `BUG_ON`. -/
abbrev Result := Option (Option Errno × OverlayDev)

def addRef (b : ℕ) (k : ℤ) (s : OverlayDev) : OverlayDev :=
  { s with refs := s.refs + Pi.single b k }

def addPin (b : ℕ) (k : ℤ) (s : OverlayDev) : OverlayDev :=
  { s with pinCount := s.pinCount + Pi.single b k }

def otherRef (b : ℕ) (k : ℤ) (s : OverlayDev) : OverlayDev :=
  { addRef b k s with otherRefs := s.otherRefs + Pi.single b k }

def otherPin (b : ℕ) (k : ℤ) (s : OverlayDev) : OverlayDev :=
  { addPin b k s with otherPins := s.otherPins + Pi.single b k }

def setStream (i : ℕ) (v : Stream) (s : OverlayDev) : OverlayDev :=
  { s with stream := Function.update s.stream i v }

def emit (c : FifoCmd) (s : OverlayDev) : OverlayDev := { s with fifo := s.fifo ++ [c] }

/-- `vmw_bo_pin_reserved`; `stays` tells that `ttm_bo_validate` returns zero and has not
    moved the buffer. It is called for the first pin and the last unpin. -/
def vmwBoPinReserved (b : ℕ) (pin stays : Bool) (s : OverlayDev) : Option OverlayDev :=
  let t := addPin b (if pin then 1 else -1) s
  if (if pin then 0 < s.pinCount b else 0 < t.pinCount b) then some t
  else if stays then some t else none

/-- What the calls inside `vmw_bo_unpin` return. -/
structure UnpinEnds where
  readLock : Option Errno
  boReserve : Option Errno
  stays : Bool
  deriving DecidableEq, Repr

def vmwBoUnpin (o : UnpinEnds) (b : ℕ) (s : OverlayDev) : Result :=
  if o.readLock.isSome then some (o.readLock, s)
  else if o.boReserve.isSome then some (o.boReserve, s)
  else (vmwBoPinReserved b false o.stays s).map fun t => (none, t)

/-- What the calls inside the functions that pin a buffer return; `validateVram` is the
    second try in VRAM. -/
structure PinEnds where
  writeLock : Option Errno
  boReserve : Option Errno
  memCompat : Bool
  validate : Option Errno
  validateVram : Option Errno
  stays : Bool
  deriving DecidableEq, Repr

/-- However `__vmw_execbuf_release_pinned_bo` ends, the query buffers are unpinned and the
    reference of `pinned_bo` is dropped. -/
def vmwExecbufReleasePinnedBo (s : OverlayDev) : OverlayDev :=
  match s.pinnedBo with
  | none => s
  | some b =>
    let t := otherRef b (-1) (otherPin b (-1) { s with pinnedBo := none })
    if s.dummyQueryBoPinned then
      { otherPin s.dummyQueryBo (-1) t with dummyQueryBoPinned := false }
    else t

def memCompat (o : PinEnds) : Option Errno := if o.memCompat then none else some .einval

/-- The pin at the end, if `ret` is zero. -/
def pinUnless (ret : Option Errno) (o : PinEnds) (b : ℕ) (s : OverlayDev) : Result :=
  match ret with
  | some e => some (some e, s)
  | none => (vmwBoPinReserved b true o.stays s).map fun t => (none, t)

/-- `vmw_bo_pin_in_vram`, through `vmw_bo_pin_in_placement`. -/
def vmwBoPinInVram (o : PinEnds) (b : ℕ) (s : OverlayDev) : Result :=
  if o.writeLock.isSome then some (o.writeLock, s)
  else
    let t := vmwExecbufReleasePinnedBo s
    if o.boReserve.isSome then some (o.boReserve, t)
    else pinUnless (if 0 < t.pinCount b then memCompat o else o.validate) o b t

def vmwBoPinInVramOrGmr (o : PinEnds) (b : ℕ) (s : OverlayDev) : Result :=
  if o.writeLock.isSome then some (o.writeLock, s)
  else
    let t := vmwExecbufReleasePinnedBo s
    if o.boReserve.isSome then some (o.boReserve, t)
    else if 0 < t.pinCount b then pinUnless (memCompat o) o b t
    else if o.validate = none ∨ o.validate = some .erestartsys then pinUnless o.validate o b t
    else pinUnless o.validateVram o b t

/-- `vmw_overlay_move_buffer` with `pin` set; without it, it is `vmw_bo_unpin`. -/
def vmwOverlayPinBuffer (o : PinEnds) (b : ℕ) (s : OverlayDev) : Result :=
  if s.legacyDisplay then vmwBoPinInVram o b s else vmwBoPinInVramOrGmr o b s

/-- `vmw_overlay_send_put`; `space` tells that there is FIFO space. -/
def vmwOverlaySendPut (space : Bool) (b : ℕ) (arg : ControlStreamArg) (s : OverlayDev) :
    Option Errno × OverlayDev :=
  if space then (none, emit (.setRegs b arg) s) else (some .enomem, s)

/-- `vmw_overlay_send_stop`. Each of `waits` is what `vmw_fallback_wait` returns after a
    reservation that has failed; then there is FIFO space. -/
def vmwOverlaySendStop (streamId : ℕ) (interruptible : Bool) :
    List (Option Errno) → OverlayDev → Result
  | [], s => some (none, emit (.stop streamId) s)
  | ret :: waits, s =>
    if interruptible ∧ ret = some .erestartsys then some (ret, s)
    else if ret.isSome then none
    else vmwOverlaySendStop streamId interruptible waits s

structure StopEnds where
  waits : List (Option Errno)
  unpin : UnpinEnds
  deriving DecidableEq, Repr

/-- The stop command and the unpin of a stream that is not paused. -/
def haltStream (o : StopEnds) (streamId b : ℕ) (interruptible : Bool) (s : OverlayDev) : Result :=
  match vmwOverlaySendStop streamId interruptible o.waits s with
  | none => none
  | some (some e, t) => some (some e, t)
  | some (none, t) =>
    match vmwBoUnpin o.unpin b t with
    | none => none
    | some (none, u) => some (none, u)
    | some (some e, u) => if interruptible ∧ e = .erestartsys then some (some e, u) else none

/-- The end of `vmw_overlay_stop`: the buffer is kept for a pause only. -/
def detachStream (streamId b : ℕ) (pause : Bool) (s : OverlayDev) : OverlayDev :=
  if pause then setStream streamId { s.stream streamId with paused := true } s
  else addRef b (-1)
    (setStream streamId { s.stream streamId with buf := none, paused := false } s)

def vmwOverlayStop (o : StopEnds) (streamId : ℕ) (pause interruptible : Bool) (s : OverlayDev) :
    Result :=
  match (s.stream streamId).buf with
  | none => some (none, s)
  | some b =>
    if (s.stream streamId).paused then some (none, detachStream streamId b pause s)
    else
      match haltStream o streamId b interruptible s with
      | none => none
      | some (some e, t) => some (some e, t)
      | some (none, t) => some (none, detachStream streamId b pause t)

structure UpdateEnds where
  stop : StopEnds
  pin : PinEnds
  space : Bool
  unpin : UnpinEnds
  deriving DecidableEq, Repr

/-- The end of `vmw_overlay_update_stream`: the stream plays from `b`. -/
def attachStream (b : ℕ) (arg : ControlStreamArg) (s : OverlayDev) : OverlayDev :=
  let v := s.stream arg.streamId
  let t := setStream arg.streamId { v with buf := some b, saved := arg, paused := false } s
  if v.buf = some b then t else addRef b 1 t

def startStream (o : UpdateEnds) (b : ℕ) (arg : ControlStreamArg) (s : OverlayDev) : Result :=
  match vmwOverlayPinBuffer o.pin b s with
  | none => none
  | some (some e, t) => some (some e, t)
  | some (none, t) =>
    match vmwOverlaySendPut o.space b arg t with
    | (none, u) => some (none, attachStream b arg u)
    | (some e, u) =>
      match vmwBoUnpin o.unpin b u with
      | some (none, v) => some (some e, v)
      | _ => none

def vmwOverlayUpdateStream (o : UpdateEnds) (buf : Option ℕ) (arg : ControlStreamArg)
    (interruptible : Bool) (s : OverlayDev) : Result :=
  match buf with
  | none => some (some .einval, s)
  | some b =>
    if (s.stream arg.streamId).buf ≠ some b then
      match vmwOverlayStop o.stop arg.streamId false interruptible s with
      | some (none, t) => startStream o b arg t
      | r => r
    else if !(s.stream arg.streamId).paused then
      match vmwOverlaySendPut o.space b arg s with
      | (none, t) =>
        some (none, setStream arg.streamId { t.stream arg.streamId with saved := arg } t)
      | (some e, t) => if interruptible then some (some e, t) else none
    else startStream o b arg s

/-- A loop over streams in which an error is only reported. -/
def forStreams (f : ℕ → OverlayDev → Result) : List ℕ → OverlayDev → Option OverlayDev
  | [], s => some s
  | i :: is, s =>
    match f i s with
    | none => none
    | some (_, t) => forStreams f is t

section Calls
variable (n : ℕ)

def vmwOverlayStopAll (o : ℕ → StopEnds) (s : OverlayDev) : Option OverlayDev :=
  if !s.present then some s
  else forStreams (fun i s =>
    if (s.stream i).buf.isNone then some (none, s)
    else vmwOverlayStop (o i) i false false s) (List.range n) s

def vmwOverlayResumeAll (o : ℕ → UpdateEnds) (s : OverlayDev) : Option OverlayDev :=
  if !s.present then some s
  else forStreams (fun i s =>
    if !(s.stream i).paused then some (none, s)
    else vmwOverlayUpdateStream (o i) (s.stream i).buf (s.stream i).saved false s)
      (List.range n) s

def vmwOverlayPauseAll (o : ℕ → StopEnds) (s : OverlayDev) : Option OverlayDev :=
  if !s.present then some s
  else forStreams (fun i s => vmwOverlayStop (o i) i true false s) (List.range n) s

/-- `vmw_overlay_ioctl`. `stream` is what `vmw_user_stream_lookup` returns and `buf` what
    `vmw_user_bo_lookup` does, which takes a reference. -/
def vmwOverlayIoctl (o : UpdateEnds) (stream buf : Except Errno ℕ) (arg : ControlStreamArg)
    (s : OverlayDev) : Result :=
  if !(s.present && s.available) then some (some (.other 38), s)
  else
    match stream with
    | .error e => some (some e, s)
    | .ok streamId =>
      let arg := { arg with streamId := streamId }
      if !arg.enabled then vmwOverlayStop o.stop streamId false true s
      else
        match buf with
        | .error e => some (some e, s)
        | .ok b =>
          (vmwOverlayUpdateStream o (some b) arg true (addRef b 1 s)).map fun r =>
            (r.1, addRef b (-1) r.2)

def vmwOverlayClaim (s : OverlayDev) : Except Errno ℕ × OverlayDev :=
  if !s.present then (.error (.other 38), s)
  else
    match (List.range n).find? fun i => !(s.stream i).claimed with
    | none => (.error .esrch, s)
    | some i => (.ok i, setStream i { s.stream i with claimed := true } s)

def vmwOverlayUnref (o : StopEnds) (streamId : ℕ) (s : OverlayDev) : Option OverlayDev :=
  if n ≤ streamId then none
  else if !s.present then some s
  else
    match vmwOverlayStop o streamId false false s with
    | none => none
    | some (_, t) => some (setStream streamId { t.stream streamId with claimed := false } t)

def vmwOverlayClose (o : ℕ → StopEnds) (s : OverlayDev) : Option OverlayDev :=
  if !s.present then some s
  else
    (forStreams (fun i s =>
      if (s.stream i).buf.isNone then some (none, s)
      else vmwOverlayStop (o i) i false false s) (List.range n) s).map fun t =>
        { t with present := false }

/-- The ids that are looked up are those that `vmw_overlay_claim` has returned. -/
def isStream : Except Errno ℕ → Bool
  | .ok i => decide (i < n)
  | .error _ => true

inductive Op where
  | ioctl (o : UpdateEnds) (stream buf : Except Errno ℕ) (arg : ControlStreamArg)
  | pauseAll (o : ℕ → StopEnds)
  | resumeAll (o : ℕ → UpdateEnds)
  | stopAll (o : ℕ → StopEnds)
  | claim
  | unref (o : StopEnds) (streamId : ℕ)
  | close (o : ℕ → StopEnds)
  /-- Another owner takes (`0 < k`) or drops references or pins. -/
  | otherRef (b : ℕ) (k : ℤ)
  | otherPin (b : ℕ) (k : ℤ)
  /-- `vmw_query_bo_switch_commit` pins a query buffer, which has its reference and pin. -/
  | queryPin (b : ℕ) (dummy : Bool)

def step (s : OverlayDev) : Op → Option OverlayDev
  | .ioctl o stream buf arg =>
    if isStream n stream then (vmwOverlayIoctl o stream buf arg s).map (·.2) else none
  | .pauseAll o => vmwOverlayPauseAll n o s
  | .resumeAll o => vmwOverlayResumeAll n o s
  | .stopAll o => vmwOverlayStopAll n o s
  | .claim => some (vmwOverlayClaim n s).2
  | .unref o streamId => vmwOverlayUnref n o streamId s
  | .close o => vmwOverlayClose n o s
  | .otherRef b k => if 0 ≤ s.otherRefs b + k then some (otherRef b k s) else none
  | .otherPin b k => if 0 ≤ s.otherPins b + k then some (otherPin b k s) else none
  | .queryPin b dummy =>
    if s.pinnedBo.isSome then none
    else
      let t := otherRef b 1 (otherPin b 1 { s with pinnedBo := some b })
      if dummy ∧ !s.dummyQueryBoPinned then
        some { otherPin s.dummyQueryBo 1 t with dummyQueryBoPinned := true }
      else some t

end Calls

end Vmwgfx.Overlay

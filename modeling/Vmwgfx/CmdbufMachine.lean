import Vmwgfx.Word32
import Vmwgfx.LabelledRuns

set_option autoImplicit false

/-!
# The command buffer manager

`vmwgfx_cmdbuf.c`: the current buffer, the per-context queues, interrupt processing
and the deferred error handling. The device is a parameter. It may act before every
read of a header's status and before every submission; `sched` lists its actions at
these moments. A section under `man->lock` is one step, and so is a call from the
lock of `cur_mutex` to its unlock, except that a reservation keeps the mutex.
-/
namespace Vmwgfx.CmdbufMachine
open Word32

/-- `SVGA_CB_CONTEXT_0` and `SVGA_CB_CONTEXT_1`. -/
inductive Cb where
  | zero
  | one
  deriving DecidableEq, Repr

/-- `SVGACBStatus`; `other` stands for every value without a name. -/
inductive Status where
  | none
  | completed
  | queueFull
  | commandError
  | cbHeaderError
  | preempted
  | submissionError
  | partialComplete
  | other (code : ℕ)
  deriving DecidableEq, Repr

/-- A command in a buffer. `known` says that `vmw_cmd_describe` describes it, and
    `ctxId` is the DX context id under which its space was reserved. -/
structure Command where
  tag : ℕ
  size : ℕ
  known : Bool
  ctxId : ℕ
  pos : 0 < size
  deriving DecidableEq

/-- A `struct vmw_cmdbuf_header` with its device header and the commands found
    from `cmd` on. -/
structure Header where
  status : Status
  errorOffset : ℕ
  /-- `SVGA_CB_FLAG_DX_CONTEXT`. -/
  dxFlag : Bool
  /-- `SVGA_CB_FLAG_MOB`. -/
  mobFlag : Bool
  length : ℕ
  /-- The union `ptr`: `pa`, or `mobid` in its lower and `mobOffset` in its upper half. -/
  ptr : ℕ
  /-- `entry->cmd`, told by the value of `ptr` that takes the device there. -/
  cmd : ℕ
  dxContext : ℕ
  cbContext : Cb
  size : ℕ
  reserved : ℕ
  inlineSpace : Bool
  cmds : List Command
  /-- The context id of the last reservation. -/
  reservedCtx : ℕ
  deriving DecidableEq

structure Write where
  id : ℕ
  status : Status
  errorOffset : ℕ

/-- Commands sent through `SVGA_CB_CONTEXT_DEVICE`. -/
inductive DeviceCommand where
  | preempt
  | startStop (enable : Bool)
  deriving DecidableEq, Repr

/-- A device with states `σ` that acts by itself through events `ε`. -/
structure Host (σ ε : Type) where
  act : σ → ε → σ × List Write
  submit : σ → Cb → ℕ → Header → σ × List Write
  command : σ → DeviceCommand → σ × List Write × Status

structure Context where
  submitted : List ℕ
  hwSubmitted : List ℕ
  preempted : List ℕ
  numHwSubmitted : ℕ
  blockSubmission : Bool

/-- Where `vmw_cmdbuf_work_func` stands: before its first critical section, after it,
    after the preempt command, or after the second one. -/
inductive Phase where
  | idle
  | collected
  | preempted
  | restarted
  deriving DecidableEq, Repr

structure Man (σ ε : Type) where
  cur : Option ℕ
  curPos : ℕ
  /-- `cur_mutex` is held by a caller with a reservation. -/
  curLocked : Bool
  ctx : Cb → Context
  error : List ℕ
  headers : ℕ → Header
  maxHwSubmitted : ℕ
  defaultSize : ℕ
  hasPool : Bool
  usingMob : Bool
  /-- `SVGA_CAP_HP_CMD_QUEUE`: there are two contexts. -/
  hpQueue : Bool
  irqOn : Bool
  workScheduled : Bool
  /-- Headers returned by `vmw_cmdbuf_alloc` to a caller that still has them. -/
  hands : List ℕ
  phase : Phase
  restartHead : Cb → List ℕ
  globalBlock : Bool
  sendFence : Bool
  dev : σ
  sched : List (List ε)
  /-- Headers allocated and not freed. -/
  live : List ℕ
  /-- Every header as it was when it was handed to the device. -/
  handed : List Header
  /-- The commands added to each context, in order. -/
  added : Cb → List Command

variable {σ ε : Type} (H : Host σ ε) (stray : ℕ → ℕ → Option ℕ)

def applyWrites (headers : ℕ → Header) : List Write → ℕ → Header
  | [] => headers
  | w :: ws =>
    applyWrites (Function.update headers w.id
      { headers w.id with status := w.status, errorOffset := w.errorOffset }) ws

def deviceRun : List ε → Man σ ε → Man σ ε
  | [], s => s
  | e :: es, s =>
    deviceRun es
      { s with dev := (H.act s.dev e).1, headers := applyWrites s.headers (H.act s.dev e).2 }

def tick (s : Man σ ε) : Man σ ε :=
  deviceRun H (s.sched.headD []) { s with sched := s.sched.tail }

def contexts (s : Man σ ε) : List Cb := if s.hpQueue then [.zero, .one] else [.zero]

def setCtx (s : Man σ ε) (c : Cb) (x : Context) : Man σ ε :=
  { s with ctx := Function.update s.ctx c x }

def setHeader (s : Man σ ε) (id : ℕ) (h : Header) : Man σ ε :=
  { s with headers := Function.update s.headers id h }

def setStatus (s : Man σ ε) (id : ℕ) (st : Status) : Man σ ε :=
  setHeader s id { s.headers id with status := st }

/-- `__vmw_cmdbuf_header_free`. -/
def headerFree (s : Man σ ε) (id : ℕ) : Man σ ε := { s with live := s.live.filter (· ≠ id) }

/-- `vmw_cmdbuf_header_submit`; the status it returns is then in the header. -/
def headerSubmit (s : Man σ ε) (c : Cb) (id : ℕ) : Man σ ε :=
  let s := tick H s
  let r := H.submit s.dev c id (s.headers id)
  { s with
    dev := r.1
    headers := applyWrites s.headers r.2
    handed := s.handed ++ [s.headers id] }

/-- `list_del`, `list_add_tail` and the count in `vmw_cmdbuf_ctx_submit`. -/
def moveToHw (s : Man σ ε) (c : Cb) (id : ℕ) (rest : List ℕ) : Man σ ε :=
  setCtx s c
    { s.ctx c with
      submitted := rest
      hwSubmitted := (s.ctx c).hwSubmitted ++ [id]
      numHwSubmitted := addU32 (s.ctx c).numHwSubmitted 1 }

/-- The loop of `vmw_cmdbuf_ctx_submit` over the submitted queue. -/
def ctxSubmit (c : Cb) : List ℕ → Man σ ε → Man σ ε
  | [], s => s
  | id :: rest, s =>
    if (s.ctx c).numHwSubmitted < s.maxHwSubmitted ∧ (s.ctx c).blockSubmission = false then
      let s := headerSubmit H s c id
      if (s.headers id).status = .queueFull then setStatus s id .none
      else ctxSubmit c rest (moveToHw s c id rest)
    else s

def vmwCmdbufCtxSubmit (c : Cb) (s : Man σ ε) : Man σ ε := ctxSubmit H c (s.ctx c).submitted s

/-- Take the first header off `hw_submitted`, leaving `rest`. -/
def takeHw (s : Man σ ε) (c : Cb) (rest : List ℕ) : Man σ ε :=
  setCtx s c
    { s.ctx c with
      hwSubmitted := rest
      numHwSubmitted := subU32 (s.ctx c).numHwSubmitted 1 }

/-- What `vmw_cmdbuf_ctx_process` does with a finished header. -/
def settle (s : Man σ ε) (c : Cb) (id : ℕ) : Status → Man σ ε
  | .commandError =>
    { setStatus s id .none with error := s.error ++ [id], workScheduled := true }
  | .preempted =>
    setCtx (setStatus s id .none) c
      { s.ctx c with preempted := (s.ctx c).preempted ++ [id] }
  | _ => headerFree s id

/-- The loop of `vmw_cmdbuf_ctx_process` over the headers submitted to hardware. -/
def processLoop (c : Cb) : List ℕ → Man σ ε → Man σ ε
  | [], s => s
  | id :: rest, s =>
    let s := tick H s
    if (s.headers id).status = .none then s
    else processLoop c rest (settle (takeHw s c rest) c id (s.headers id).status)

def vmwCmdbufCtxProcess (s : Man σ ε) (c : Cb) : Man σ ε :=
  let s := vmwCmdbufCtxSubmit H c s
  let s := processLoop H c (s.ctx c).hwSubmitted s
  vmwCmdbufCtxSubmit H c s

def processAll (s : Man σ ε) : Man σ ε := (contexts s).foldl (vmwCmdbufCtxProcess H) s

/-- Some context has headers that are not submitted to hardware. -/
def notempty (s : Man σ ε) : Bool := (contexts s).any fun c => !(s.ctx c).submitted.isEmpty

/-- `vmw_cmdbuf_man_process`. Switching the interrupt on reruns it once; the rerun
    finds it on. -/
def vmwCmdbufManProcess (s : Man σ ε) : Man σ ε :=
  let s := processAll H s
  if s.irqOn && !notempty s then { s with irqOn := false }
  else if !s.irqOn && notempty s then
    let s := processAll H { s with irqOn := true }
    if notempty s then s else { s with irqOn := false }
  else s

/-- The queueing half of `vmw_cmdbuf_ctx_add`. -/
def enqueue (s : Man σ ε) (id : ℕ) (c : Cb) : Man σ ε :=
  let h := s.headers id
  let x := s.ctx c
  { s with
    headers := Function.update s.headers id
      { h with dxContext := if h.dxFlag then h.dxContext else 0, cbContext := c }
    ctx := Function.update s.ctx c { x with submitted := x.submitted ++ [id] }
    added := Function.update s.added c (s.added c ++ h.cmds) }

def vmwCmdbufCtxAdd (s : Man σ ε) (id : ℕ) (c : Cb) : Man σ ε :=
  vmwCmdbufManProcess H (enqueue s id c)

/-- `__vmw_cmdbuf_cur_flush`. Nobody reads `cur` before the mutex is dropped. -/
def vmwCmdbufCurFlush (s : Man σ ε) : Man σ ε :=
  match s.cur with
  | none => s
  | some id =>
    let pos := s.curPos
    let s := { s with cur := none, curPos := 0 }
    if pos = 0 then headerFree s id
    else vmwCmdbufCtxAdd H (setHeader s id { s.headers id with length := pos % 2 ^ 32 }) id .zero

def vmwCmdbufInlineSize : ℕ := 1024 - 64

/-- The pool set up by the driver, `256 * 4096` bytes. -/
def poolSize : ℕ := 256 * 4096

def pageAlign (size : ℕ) : ℕ := (size + 4095) / 4096 * 4096

/-- How one allocation goes: the address it finds, how often it processes the
    queues while it waits for space, and whether memory is found in the end. -/
structure Plan where
  id : ℕ
  polls : ℕ
  ok : Bool
  ptr : ℕ
  deriving DecidableEq, Repr

def freshHeader (size ptr : ℕ) (inlineSpace mobFlag : Bool) : Header where
  status := .none
  errorOffset := 0
  dxFlag := false
  mobFlag := mobFlag
  length := 0
  ptr := ptr
  cmd := ptr
  dxContext := 0
  cbContext := .zero
  size := size
  reserved := 0
  inlineSpace := inlineSpace
  cmds := []
  reservedCtx := 2 ^ 32 - 1

/-- A zeroed header; memory in use is not allocated again. -/
def newHeader (s : Man σ ε) (plan : Plan) (h : Header) : Option ℕ × Man σ ε :=
  if plan.ok = false ∨ plan.id ∈ s.live then (none, s)
  else (some plan.id, { setHeader s plan.id h with live := plan.id :: s.live })

/-- `vmw_cmdbuf_alloc`. The pool has no room for more than its size; inline space is never in
    a MOB. -/
def vmwCmdbufAlloc (s : Man σ ε) (size : ℕ) (plan : Plan) : Option ℕ × Man σ ε :=
  if size ≤ vmwCmdbufInlineSize then
    newHeader s plan (freshHeader vmwCmdbufInlineSize plan.ptr true false)
  else if s.hasPool = false then (none, s)
  else
    let s := (vmwCmdbufManProcess H)^[plan.polls] s
    if poolSize < pageAlign size then (none, s)
    else newHeader s plan (freshHeader (pageAlign size) plan.ptr false s.usingMob)

/-- Marking a header for a reservation of `size` bytes under `ctxId`. -/
def reserveIn (h : Header) (size ctxId : ℕ) : Header :=
  { h with
    dxFlag := h.dxFlag || decide (ctxId ≠ 2 ^ 32 - 1)
    dxContext := if ctxId ≠ 2 ^ 32 - 1 then ctxId else h.dxContext
    reserved := size
    reservedCtx := ctxId }

/-- The test of `vmw_cmdbuf_reserve_cur` for flushing the current buffer first. -/
def mustFlush (s : Man σ ε) (size ctxId : ℕ) : Bool :=
  match s.cur with
  | none => false
  | some id =>
    decide ((s.headers id).size < size + s.curPos) ||
      ((s.headers id).dxFlag && decide (ctxId ≠ (s.headers id).dxContext))

def ensureCur (s : Man σ ε) (size : ℕ) (plan : Plan) : Option ℕ × Man σ ε :=
  match s.cur with
  | some id => (some id, s)
  | none =>
    let r := vmwCmdbufAlloc H s (Nat.max size s.defaultSize) plan
    (r.1, { r.2 with cur := r.1 })

/-- `vmw_cmdbuf_reserve_cur`; without a buffer the mutex is dropped again. -/
def vmwCmdbufReserveCur (s : Man σ ε) (size ctxId : ℕ) (plan : Plan) : Man σ ε :=
  let s := if mustFlush s size ctxId then vmwCmdbufCurFlush H s else s
  let r := ensureCur H s size plan
  match r.1 with
  | none => r.2
  | some id =>
    { setHeader r.2 id (reserveIn (r.2.headers id) size ctxId) with curLocked := true }

def totalSize (cmds : List Command) : ℕ := (cmds.map Command.size).sum

/-- Commands written to a header under its reservation. A commit of nothing takes
    the DX flag back. -/
def commitIn (h : Header) (cmds : List Command) : Header :=
  { h with
    dxFlag := if totalSize cmds = 0 then false else h.dxFlag
    cmds := h.cmds ++ cmds.map fun x => { x with ctxId := h.reservedCtx } }

def vmwCmdbufCommitCur (s : Man σ ε) (id : ℕ) (cmds : List Command) (flush : Bool) : Man σ ε :=
  let s := { s with curPos := s.curPos + totalSize cmds }
  let s := setHeader s id (commitIn (s.headers id) cmds)
  let s := if flush then vmwCmdbufCurFlush H s else s
  { s with curLocked := false }

/-- `vmw_cmdbuf_commit` with a header of the caller's own. -/
def vmwCmdbufCommit (s : Man σ ε) (id : ℕ) (cmds : List Command) (flush : Bool) : Man σ ε :=
  let s := vmwCmdbufCurFlush H s
  let s := { s with
    cur := some id, curPos := totalSize cmds, hands := s.hands.filter (· ≠ id) }
  let s := setHeader s id (commitIn (s.headers id) cmds)
  if flush then vmwCmdbufCurFlush H s else s

/-- The commands from byte `off` on, when one starts there. -/
def dropBytes : ℕ → List Command → Option (List Command)
  | 0, cmds => some cmds
  | _ + 1, [] => none
  | off + 1, x :: cmds => if x.size ≤ off + 1 then dropBytes (off + 1 - x.size) cmds else none

/-- `vmw_cmd_describe` on the bytes at `off`; `stray` is what it makes of bytes where
    no command of the buffer starts. -/
def vmwCmdDescribe (id : ℕ) (h : Header) (off : ℕ) : Option ℕ :=
  match dropBytes off h.cmds with
  | some (x :: _) => if x.known then some x.size else none
  | _ => stray id off

/-- `ptr` behind `n` bytes, taken as an offset in a MOB or as a physical address. -/
def forward (mob : Bool) (ptr n : ℕ) : ℕ :=
  if mob then ptr % 2 ^ 32 + addU32 (ptr / 2 ^ 32) n * 2 ^ 32 else (ptr + n) % 2 ^ 64

/-- One round of the first loop of `vmw_cmdbuf_work_func`. The manager's pool decides which half
    of `ptr` moves, also for a header with inline space. -/
def restartEntry (s : Man σ ε) (id : ℕ) : Man σ ε :=
  let h := s.headers id
  match vmwCmdDescribe stray id h h.errorOffset with
  | none => { headerFree s id with sendFence := true }
  | some size =>
    let start := addU32 h.errorOffset size
    if h.length ≤ start then { headerFree s id with sendFence := true }
    else
      { setHeader s id
          { h with
            ptr := forward s.usingMob h.ptr start
            cmd := forward h.mobFlag h.cmd start
            cmds := (dropBytes start h.cmds).getD []
            length := subU32 h.length start
            errorOffset := 0 } with
        restartHead := Function.update s.restartHead h.cbContext
          (s.restartHead h.cbContext ++ [id]) }

def blockAll (s : Man σ ε) : Man σ ε :=
  { s with
    ctx := fun c =>
      if c ∈ contexts s then { s.ctx c with blockSubmission := true } else s.ctx c }

/-- The first critical section of `vmw_cmdbuf_work_func`. -/
def workCollect (s : Man σ ε) : Man σ ε :=
  let errors := s.error
  let s := { s with
    error := [], workScheduled := false, sendFence := false
    globalBlock := !errors.isEmpty, restartHead := fun _ => [] }
  let s := errors.foldl (restartEntry stray) s
  { blockAll s with phase := .collected }

/-- `vmw_cmdbuf_send_device_command`; its header is allocated, used and freed in
    one go. The flag says that it returned 0. -/
def sendDeviceCommand (s : Man σ ε) (ok : Bool) (cmd : DeviceCommand) : Bool × Man σ ε :=
  if ok then
    let s := tick H s
    let r := H.command s.dev cmd
    (decide (r.2.2 = .completed),
      { s with dev := r.1, headers := applyWrites s.headers r.2.1 })
  else (false, s)

/-- One context of the second critical section of `vmw_cmdbuf_work_func`: what was
    preempted goes behind the buffer that failed, and both go before what is queued. -/
def restartCtx (s : Man σ ε) (c : Cb) : Man σ ε :=
  let s := vmwCmdbufCtxProcess H s c
  let s := setCtx s c
    { s.ctx c with
      preempted := []
      blockSubmission := false
      submitted := s.restartHead c ++ (s.ctx c).preempted ++ (s.ctx c).submitted }
  { s with restartHead := Function.update s.restartHead c [] }

def workRestart (s : Man σ ε) : Man σ ε :=
  { vmwCmdbufManProcess H ((contexts s).foldl (restartCtx H) s) with phase := .restarted }

/-- The manager that `vmw_cmdbuf_man_create` returns, on a device that was started. -/
def vmwCmdbufManCreate (dev : σ) (hpQueue usingMob : Bool) : Man σ ε where
  cur := none
  curPos := 0
  curLocked := false
  ctx := fun _ => ⟨[], [], [], 0, false⟩
  error := []
  headers := applyWrites (fun _ => freshHeader 0 0 false false) (H.command dev (.startStop true)).2.1
  maxHwSubmitted := 32 - 1
  defaultSize := vmwCmdbufInlineSize
  hasPool := false
  usingMob := usingMob
  hpQueue := hpQueue
  irqOn := false
  workScheduled := false
  hands := []
  phase := .idle
  restartHead := fun _ => []
  globalBlock := false
  sendFence := false
  dev := (H.command dev (.startStop true)).1
  sched := []
  live := []
  handed := []
  added := fun _ => []

/-- `vmw_cmdbuf_set_pool_size` of a manager without a pool: whether it comes to a MOB, and
    whether the pool is made. -/
def vmwCmdbufSetPoolSize (s : Man σ ε) (mob made : Bool) : Man σ ε :=
  { s with
    usingMob := if made then mob else s.usingMob || mob
    hasPool := made
    defaultSize := if made then vmwCmdbufInlineSize else s.defaultSize }

inductive Act (ε : Type) where
  | reserve (size ctxId : ℕ) (plan : Plan) (sched : List (List ε))
  | commit (cmds : List Command) (flush : Bool) (sched : List (List ε))
  | alloc (size : ℕ) (plan : Plan) (sched : List (List ε))
  | reserveHeader (id size ctxId : ℕ)
  | commitHeader (id : ℕ) (cmds : List Command) (flush : Bool) (sched : List (List ε))
  | headerFree (id : ℕ)
  | ctxAdd (id : ℕ) (c : Cb) (cmds : List Command) (sched : List (List ε))
  | curFlush (sched : List (List ε))
  | irqthread (sched : List (List ε))
  | workCollect
  | workPreempt (ok : Bool) (sched : List (List ε))
  | workRestart (sched : List (List ε))
  | workStart (ok : Bool) (sched : List (List ε))
  | stop (ok : Bool) (sched : List (List ε))
  | setPool (mob made : Bool)
  | removePool
  | device (es : List ε)

/-- A call that must wait for a mutex is not taken. Callers commit at most what they
    reserved; `ctxAdd` adds a header of the caller's own to any context. -/
def step (s : Man σ ε) : Act ε → Option (Man σ ε)
  | .reserve size ctxId plan sched =>
    if s.curLocked then none
    else some (vmwCmdbufReserveCur H { s with sched := sched } size ctxId plan)
  | .commit cmds flush sched =>
    match s.cur with
    | none => none
    | some id =>
      if s.curLocked = false ∨ (s.headers id).reserved < totalSize cmds then none
      else some (vmwCmdbufCommitCur H { s with sched := sched } id cmds flush)
  | .alloc size plan sched =>
    let r := vmwCmdbufAlloc H { s with sched := sched } size plan
    some { r.2 with hands := r.1.toList ++ r.2.hands }
  | .reserveHeader id size ctxId =>
    if id ∉ s.hands then none
    else if (s.headers id).size < size then some s
    else some (setHeader s id (reserveIn (s.headers id) size ctxId))
  | .commitHeader id cmds flush sched =>
    if s.curLocked ∨ id ∉ s.hands ∨ (s.headers id).reserved < totalSize cmds then none
    else some (vmwCmdbufCommit H { s with sched := sched } id cmds flush)
  | .headerFree id =>
    if id ∉ s.hands then none
    else some { headerFree s id with hands := s.hands.filter (· ≠ id) }
  | .ctxAdd id c cmds sched =>
    if id ∉ s.hands ∨ c ∉ contexts s ∨ (s.headers id).reserved < totalSize cmds then none
    else
      let h := commitIn (s.headers id) cmds
      some (vmwCmdbufCtxAdd H
        { setHeader s id { h with length := totalSize cmds } with
          hands := s.hands.filter (· ≠ id), sched := sched } id c)
  | .curFlush sched =>
    if s.curLocked then none else some (vmwCmdbufCurFlush H { s with sched := sched })
  | .irqthread sched => some (vmwCmdbufManProcess H { s with sched := sched })
  | .workCollect => if s.phase = .idle then some (workCollect stray s) else none
  | .workPreempt ok sched =>
    if s.phase = .collected then
      if s.globalBlock then
        some { (sendDeviceCommand H { s with sched := sched } ok .preempt).2 with
          phase := .preempted }
      else some { s with phase := .preempted }
    else none
  | .workRestart sched =>
    if s.phase = .preempted then some (workRestart H { s with sched := sched }) else none
  | .workStart ok sched =>
    if s.phase = .restarted then
      if s.globalBlock then
        some { (sendDeviceCommand H { s with sched := sched } ok (.startStop true)).2 with
          phase := .idle }
      else some { s with phase := .idle }
    else none
  | .stop ok sched => some (sendDeviceCommand H { s with sched := sched } ok (.startStop false)).2
  | .setPool mob made =>
    some (if s.hasPool then s else vmwCmdbufSetPoolSize s mob made)
  | .removePool => some { s with hasPool := false, defaultSize := vmwCmdbufInlineSize }
  | .device es => some (deviceRun H es s)

inductive Took (s : Man σ ε) : Act ε → Man σ ε → Prop where
  | reserve {size ctxId : ℕ} {plan : Plan} {sched : List (List ε)} (hfree : s.curLocked = false) :
    Took s (.reserve size ctxId plan sched)
      (vmwCmdbufReserveCur H { s with sched := sched } size ctxId plan)
  | commit {cmds : List Command} {flush : Bool} {sched : List (List ε)} {id : ℕ}
    (hcur : s.cur = some id) (hlocked : s.curLocked = true)
    (hfits : totalSize cmds ≤ (s.headers id).reserved) :
    Took s (.commit cmds flush sched)
      (vmwCmdbufCommitCur H { s with sched := sched } id cmds flush)
  | alloc {size : ℕ} {plan : Plan} {sched : List (List ε)} :
    Took s (.alloc size plan sched)
      { (vmwCmdbufAlloc H { s with sched := sched } size plan).2 with
        hands := (vmwCmdbufAlloc H { s with sched := sched } size plan).1.toList ++
          (vmwCmdbufAlloc H { s with sched := sched } size plan).2.hands }
  | reserveFails {id size ctxId : ℕ} (hid : id ∈ s.hands) (hsmall : (s.headers id).size < size) :
    Took s (.reserveHeader id size ctxId) s
  | reserveHeader {id size ctxId : ℕ} (hid : id ∈ s.hands) (hfits : size ≤ (s.headers id).size) :
    Took s (.reserveHeader id size ctxId) (setHeader s id (reserveIn (s.headers id) size ctxId))
  | commitHeader {id : ℕ} {cmds : List Command} {flush : Bool} {sched : List (List ε)}
    (hfree : s.curLocked = false) (hid : id ∈ s.hands)
    (hfits : totalSize cmds ≤ (s.headers id).reserved) :
    Took s (.commitHeader id cmds flush sched)
      (vmwCmdbufCommit H { s with sched := sched } id cmds flush)
  | headerFree {id : ℕ} (hid : id ∈ s.hands) :
    Took s (.headerFree id) { headerFree s id with hands := s.hands.filter (· ≠ id) }
  | ctxAdd {id : ℕ} {c : Cb} {cmds : List Command} {sched : List (List ε)} (hid : id ∈ s.hands)
    (hc : c ∈ contexts s) (hfits : totalSize cmds ≤ (s.headers id).reserved) :
    Took s (.ctxAdd id c cmds sched)
      (vmwCmdbufCtxAdd H
        { setHeader s id { commitIn (s.headers id) cmds with length := totalSize cmds } with
          hands := s.hands.filter (· ≠ id), sched := sched } id c)
  | curFlush {sched : List (List ε)} (hfree : s.curLocked = false) :
    Took s (.curFlush sched) (vmwCmdbufCurFlush H { s with sched := sched })
  | irqthread {sched : List (List ε)} :
    Took s (.irqthread sched) (vmwCmdbufManProcess H { s with sched := sched })
  | workCollect (hidle : s.phase = .idle) : Took s .workCollect (workCollect stray s)
  | preempt {ok : Bool} {sched : List (List ε)} (hphase : s.phase = .collected)
    (hblock : s.globalBlock = true) :
    Took s (.workPreempt ok sched)
      { (sendDeviceCommand H { s with sched := sched } ok .preempt).2 with phase := .preempted }
  | noPreempt {ok : Bool} {sched : List (List ε)} (hphase : s.phase = .collected)
    (hblock : s.globalBlock = false) :
    Took s (.workPreempt ok sched) { s with phase := .preempted }
  | workRestart {sched : List (List ε)} (hphase : s.phase = .preempted) :
    Took s (.workRestart sched) (workRestart H { s with sched := sched })
  | start {ok : Bool} {sched : List (List ε)} (hphase : s.phase = .restarted)
    (hblock : s.globalBlock = true) :
    Took s (.workStart ok sched)
      { (sendDeviceCommand H { s with sched := sched } ok (.startStop true)).2 with
        phase := .idle }
  | noStart {ok : Bool} {sched : List (List ε)} (hphase : s.phase = .restarted)
    (hblock : s.globalBlock = false) : Took s (.workStart ok sched) { s with phase := .idle }
  | stop {ok : Bool} {sched : List (List ε)} :
    Took s (.stop ok sched) (sendDeviceCommand H { s with sched := sched } ok (.startStop false)).2
  | poolKept {mob made : Bool} (hpool : s.hasPool = true) : Took s (.setPool mob made) s
  | setPool {mob made : Bool} (hpool : s.hasPool = false) :
    Took s (.setPool mob made) (vmwCmdbufSetPoolSize s mob made)
  | removePool : Took s .removePool { s with hasPool := false, defaultSize := vmwCmdbufInlineSize }
  | device {es : List ε} : Took s (.device es) (deviceRun H es s)

theorem step_took {s t : Man σ ε} {a : Act ε} (h : step H stray s a = some t) :
    Took H stray s a t := by
  cases a with
  | reserve size ctxId plan sched =>
    simp only [step] at h
    split_ifs at h with hlocked
    obtain rfl := Option.some.inj h
    exact .reserve (by simpa using hlocked)
  | commit cmds flush sched =>
    simp only [step] at h
    split at h
    · cases h
    · next id hcur =>
      split_ifs at h with hno
      push Not at hno
      obtain rfl := Option.some.inj h
      exact .commit hcur (by simpa using hno.1) hno.2
  | alloc size plan sched =>
    obtain rfl := Option.some.inj h
    exact .alloc
  | reserveHeader id size ctxId =>
    simp only [step] at h
    split_ifs at h with hid hsmall
    · obtain rfl := Option.some.inj h
      exact .reserveFails hid hsmall
    · obtain rfl := Option.some.inj h
      exact .reserveHeader hid (not_lt.1 hsmall)
  | commitHeader id cmds flush sched =>
    simp only [step] at h
    split_ifs at h with hno
    push Not at hno
    obtain rfl := Option.some.inj h
    exact .commitHeader (by simpa using hno.1) hno.2.1 hno.2.2
  | headerFree id =>
    simp only [step] at h
    split_ifs at h with hid
    obtain rfl := Option.some.inj h
    exact .headerFree hid
  | ctxAdd id c cmds sched =>
    simp only [step] at h
    split_ifs at h with hno
    push Not at hno
    obtain rfl := Option.some.inj h
    exact .ctxAdd hno.1 hno.2.1 hno.2.2
  | curFlush sched =>
    simp only [step] at h
    split_ifs at h with hlocked
    obtain rfl := Option.some.inj h
    exact .curFlush (by simpa using hlocked)
  | irqthread sched =>
    obtain rfl := Option.some.inj h
    exact .irqthread
  | workCollect =>
    simp only [step] at h
    split_ifs at h with hidle
    obtain rfl := Option.some.inj h
    exact .workCollect hidle
  | workPreempt ok sched =>
    simp only [step] at h
    split_ifs at h with hphase hblock
    · obtain rfl := Option.some.inj h
      exact .preempt hphase hblock
    · obtain rfl := Option.some.inj h
      exact .noPreempt hphase (by simpa using hblock)
  | workRestart sched =>
    simp only [step] at h
    split_ifs at h with hphase
    obtain rfl := Option.some.inj h
    exact .workRestart hphase
  | workStart ok sched =>
    simp only [step] at h
    split_ifs at h with hphase hblock
    · obtain rfl := Option.some.inj h
      exact .start hphase hblock
    · obtain rfl := Option.some.inj h
      exact .noStart hphase (by simpa using hblock)
  | stop ok sched =>
    obtain rfl := Option.some.inj h
    exact .stop
  | setPool mob made =>
    simp only [step] at h
    split_ifs at h with hpool
    · obtain rfl := Option.some.inj h
      exact .poolKept hpool
    · obtain rfl := Option.some.inj h
      exact .setPool (by simpa using hpool)
  | removePool =>
    obtain rfl := Option.some.inj h
    exact .removePool
  | device es =>
    obtain rfl := Option.some.inj h
    exact .device

section frame

def Touched (f g : ℕ → Header) : Prop :=
  ∀ id, ∃ st off, g id = { f id with status := st, errorOffset := off }

theorem Touched.refl (f : ℕ → Header) : Touched f f := fun id =>
  ⟨(f id).status, (f id).errorOffset, rfl⟩

theorem Touched.trans {f g k : ℕ → Header} (h : Touched f g) (h' : Touched g k) :
    Touched f k := by
  intro id
  obtain ⟨_, _, h⟩ := h id
  obtain ⟨st, off, h'⟩ := h' id
  exact ⟨st, off, by rw [h', h]⟩

theorem applyWrites_touched (headers : ℕ → Header) (ws : List Write) :
    Touched headers (applyWrites headers ws) := by
  induction ws generalizing headers with
  | nil => exact Touched.refl headers
  | cons w ws ih =>
    refine Touched.trans ?_ (ih _)
    intro id
    by_cases hid : id = w.id
    · subst hid
      exact ⟨w.status, w.errorOffset, Function.update_self ..⟩
    · exact ⟨(headers id).status, (headers id).errorOffset, Function.update_of_ne hid ..⟩

theorem deviceRun_eq (es : List ε) (s : Man σ ε) : ∃ dev headers,
    deviceRun H es s = { s with dev := dev, headers := headers } ∧ Touched s.headers headers := by
  induction es generalizing s with
  | nil => exact ⟨s.dev, s.headers, rfl, Touched.refl _⟩
  | cons e es ih =>
    obtain ⟨dev, headers, h, ht⟩ := ih { s with
      dev := (H.act s.dev e).1, headers := applyWrites s.headers (H.act s.dev e).2 }
    exact ⟨dev, headers, h, (applyWrites_touched _ _).trans ht⟩

theorem tick_eq (s : Man σ ε) : ∃ dev headers sched,
    tick H s = { s with dev := dev, headers := headers, sched := sched } ∧
      Touched s.headers headers := by
  obtain ⟨dev, headers, h, ht⟩ := deviceRun_eq H (s.sched.headD []) { s with
    sched := s.sched.tail }
  exact ⟨dev, headers, s.sched.tail, h, ht⟩

theorem headerSubmit_eq (s : Man σ ε) (c : Cb) (id : ℕ) : ∃ dev headers sched h,
    headerSubmit H s c id =
        { s with dev := dev, headers := headers, sched := sched, handed := s.handed ++ [h] } ∧
      Touched s.headers headers ∧
      ∃ st off, h = { s.headers id with status := st, errorOffset := off } := by
  obtain ⟨dev, headers, sched, he, ht⟩ := tick_eq H s
  refine ⟨_, _, sched, headers id, by rw [headerSubmit, he],
    ht.trans (applyWrites_touched _ _), ht id⟩

/-- What the queue processing can do, as the steps of a relation between states. A
    relation that holds for each of them holds for `vmw_cmdbuf_man_process`. -/
structure ProcessRule (R : Man σ ε → Man σ ε → Prop) : Prop where
  refl : ∀ s, R s s
  trans : ∀ {s t u}, R s t → R t u → R s u
  tick : ∀ s, R s (tick H s)
  full : ∀ {s c id rest}, (s.ctx c).submitted = id :: rest →
    (s.ctx c).blockSubmission = false →
    ((headerSubmit H s c id).headers id).status = .queueFull →
    R s (setStatus (headerSubmit H s c id) id .none)
  move : ∀ {s c id rest}, (s.ctx c).submitted = id :: rest →
    (s.ctx c).numHwSubmitted < s.maxHwSubmitted → (s.ctx c).blockSubmission = false →
    ((headerSubmit H s c id).headers id).status ≠ .queueFull →
    R s (moveToHw (headerSubmit H s c id) c id rest)
  settle : ∀ {s c id rest}, (s.ctx c).hwSubmitted = id :: rest →
    (s.headers id).status ≠ .none → R s (settle (takeHw s c rest) c id (s.headers id).status)
  irq : ∀ s b, R s { s with irqOn := b }

theorem settle_hw (s : Man σ ε) (c : Cb) (id : ℕ) (st : Status) :
    ((settle s c id st).ctx c).hwSubmitted = (s.ctx c).hwSubmitted := by
  cases st <;> simp [settle, setCtx, setStatus, setHeader, headerFree]

section rule
variable {H} {R : Man σ ε → Man σ ε → Prop} (hR : ProcessRule H R)
include hR

theorem ProcessRule.ctxSubmit (c : Cb) (l : List ℕ) {s : Man σ ε}
    (hl : (s.ctx c).submitted = l) : R s (ctxSubmit H c l s) := by
  induction l generalizing s with
  | nil => exact hR.refl s
  | cons id rest ih =>
    unfold CmdbufMachine.ctxSubmit
    dsimp only
    split_ifs with hgo hfull
    · exact hR.full hl hgo.2 hfull
    · exact hR.trans (hR.move hl hgo.1 hgo.2 hfull) (ih (by simp [moveToHw, setCtx]))
    · exact hR.refl s

theorem ProcessRule.processLoop (c : Cb) (l : List ℕ) {s : Man σ ε}
    (hl : (s.ctx c).hwSubmitted = l) : R s (processLoop H c l s) := by
  induction l generalizing s with
  | nil => exact hR.refl s
  | cons id rest ih =>
    have ht := hR.tick s
    have hlt : ((CmdbufMachine.tick H s).ctx c).hwSubmitted = id :: rest := by
      obtain ⟨_, _, _, he, _⟩ := tick_eq H s
      rw [he]
      exact hl
    unfold CmdbufMachine.processLoop
    dsimp only
    split_ifs with hst
    · exact ht
    · exact hR.trans ht (hR.trans (hR.settle hlt hst)
        (ih (by rw [settle_hw]; simp [takeHw, setCtx])))

theorem ProcessRule.ctxProcess (s : Man σ ε) (c : Cb) : R s (vmwCmdbufCtxProcess H s c) :=
  hR.trans (hR.ctxSubmit c _ rfl) (hR.trans (hR.processLoop c _ rfl) (hR.ctxSubmit c _ rfl))

theorem ProcessRule.processAll (s : Man σ ε) : R s (processAll H s) := by
  unfold CmdbufMachine.processAll
  generalize contexts s = l
  induction l generalizing s with
  | nil => exact hR.refl s
  | cons c l ih => exact hR.trans (hR.ctxProcess s c) (ih _)

theorem ProcessRule.manProcess (s : Man σ ε) : R s (vmwCmdbufManProcess H s) := by
  have hall := hR.processAll s
  have hagain := hR.trans (hR.trans hall (hR.irq _ true)) (hR.processAll _)
  unfold vmwCmdbufManProcess
  dsimp only
  split_ifs
  · exact hR.trans hall (hR.irq _ _)
  · exact hagain
  · exact hR.trans hagain (hR.irq _ _)
  · exact hall

theorem ProcessRule.iterate (n : ℕ) (s : Man σ ε) : R s ((vmwCmdbufManProcess H)^[n] s) := by
  induction n with
  | zero => exact hR.refl s
  | succ n ih =>
    rw [Function.iterate_succ_apply']
    exact hR.trans ih (hR.manProcess _)

end rule

/-- Processing the queues moves headers and leaves the rest of the manager alone. -/
def Processed (s t : Man σ ε) : Prop :=
  ∃ ctx error headers irqOn workScheduled dev sched live handed,
    t = { s with
      ctx := ctx, error := error, headers := headers, irqOn := irqOn
      workScheduled := workScheduled, dev := dev, sched := sched, live := live
      handed := handed }

theorem Processed.refl (s : Man σ ε) : Processed s s :=
  ⟨s.ctx, s.error, s.headers, s.irqOn, s.workScheduled, s.dev, s.sched, s.live, s.handed, rfl⟩

theorem Processed.trans {s t u : Man σ ε} (h : Processed s t) (h' : Processed t u) :
    Processed s u := by
  obtain ⟨_, _, _, _, _, _, _, _, _, rfl⟩ := h
  obtain ⟨_, _, _, _, _, _, _, _, _, rfl⟩ := h'
  exact ⟨_, _, _, _, _, _, _, _, _, rfl⟩

theorem tick_processed (s : Man σ ε) : Processed s (tick H s) := by
  obtain ⟨_, _, _, h, _⟩ := tick_eq H s
  rw [h]
  exact ⟨_, _, _, _, _, _, _, _, _, rfl⟩

theorem headerSubmit_processed (s : Man σ ε) (c : Cb) (id : ℕ) :
    Processed s (headerSubmit H s c id) := by
  obtain ⟨_, _, _, _, h, _⟩ := headerSubmit_eq H s c id
  rw [h]
  exact ⟨_, _, _, _, _, _, _, _, _, rfl⟩

theorem processed_rule : ProcessRule H (Processed (σ := σ) (ε := ε)) where
  refl := Processed.refl
  trans := Processed.trans
  tick := tick_processed H
  full := fun _ _ _ => (headerSubmit_processed H _ _ _).trans ⟨_, _, _, _, _, _, _, _, _, rfl⟩
  move := fun _ _ _ _ => (headerSubmit_processed H _ _ _).trans ⟨_, _, _, _, _, _, _, _, _, rfl⟩
  settle := by
    intro s c id rest _ _
    cases (s.headers id).status <;> exact ⟨_, _, _, _, _, _, _, _, _, rfl⟩
  irq := fun _ _ => ⟨_, _, _, _, _, _, _, _, _, rfl⟩

theorem vmwCmdbufManProcess_processed (s : Man σ ε) : Processed s (vmwCmdbufManProcess H s) :=
  (processed_rule H).manProcess s

theorem newHeader_processed (s : Man σ ε) (plan : Plan) (x : Header) :
    Processed s (newHeader s plan x).2 := by
  unfold newHeader
  split_ifs
  · exact Processed.refl s
  · exact ⟨_, _, _, _, _, _, _, _, _, rfl⟩

theorem vmwCmdbufAlloc_processed (s : Man σ ε) (size : ℕ) (plan : Plan) :
    Processed s (vmwCmdbufAlloc H s size plan).2 := by
  have hpolls := (processed_rule H).iterate plan.polls s
  unfold vmwCmdbufAlloc
  dsimp only
  split_ifs
  · exact newHeader_processed s plan _
  · exact Processed.refl s
  · exact hpolls
  · exact hpolls.trans (newHeader_processed _ plan _)

theorem vmwCmdbufCtxAdd_processed (s : Man σ ε) (id : ℕ) (c : Cb) : ∃ added,
    Processed { s with added := added } (vmwCmdbufCtxAdd H s id c) := by
  obtain ⟨_, _, _, _, _, _, _, _, _, h⟩ := vmwCmdbufManProcess_processed H (enqueue s id c)
  exact ⟨_, _, _, _, _, _, _, _, _, _, h⟩

theorem vmwCmdbufCurFlush_processed (s : Man σ ε) : ∃ pos added,
    Processed { s with cur := none, curPos := pos, added := added } (vmwCmdbufCurFlush H s) := by
  unfold vmwCmdbufCurFlush
  cases hcur : s.cur with
  | none =>
    have hs : ({ s with cur := none } : Man σ ε) = s := by rw [← hcur]
    refine ⟨s.curPos, s.added, ?_⟩
    rw [hs]
    exact Processed.refl s
  | some id =>
    dsimp only
    split_ifs
    · exact ⟨0, s.added, _, _, _, _, _, _, _, _, _, rfl⟩
    · obtain ⟨added, _, _, _, _, _, _, _, _, _, h⟩ := vmwCmdbufCtxAdd_processed H
        (setHeader { s with cur := none, curPos := 0 } id
          { s.headers id with length := s.curPos % 2 ^ 32 }) id .zero
      exact ⟨0, added, _, _, _, _, _, _, _, _, _, h⟩

theorem Processed.hands {s t : Man σ ε} (h : Processed s t) :
    t.hands = s.hands ∧ t.cur = s.cur ∧ t.curLocked = s.curLocked := by
  obtain ⟨_, _, _, _, _, _, _, _, _, rfl⟩ := h
  exact ⟨rfl, rfl, rfl⟩

theorem vmwCmdbufCommit_locked (s : Man σ ε) (id : ℕ) (cmds : List Command) (flush : Bool) :
    (vmwCmdbufCommit H s id cmds flush).curLocked = s.curLocked := by
  obtain ⟨_, _, hp⟩ := vmwCmdbufCurFlush_processed H s
  cases flush with
  | false => exact hp.hands.2.2
  | true =>
    obtain ⟨_, _, hp'⟩ := vmwCmdbufCurFlush_processed H (setHeader
      { vmwCmdbufCurFlush H s with
        cur := some id, curPos := totalSize cmds
        hands := (vmwCmdbufCurFlush H s).hands.filter (· ≠ id) } id
      (commitIn ((vmwCmdbufCurFlush H s).headers id) cmds))
    exact hp'.hands.2.2.trans hp.hands.2.2

def SameWork (s t : Man σ ε) : Prop :=
  t.phase = s.phase ∧ t.restartHead = s.restartHead ∧ t.globalBlock = s.globalBlock ∧
    t.hpQueue = s.hpQueue

theorem SameWork.trans {s t u : Man σ ε} (h : SameWork s t) (h' : SameWork t u) :
    SameWork s u :=
  ⟨h'.1.trans h.1, h'.2.1.trans h.2.1, h'.2.2.1.trans h.2.2.1, h'.2.2.2.trans h.2.2.2⟩

theorem Processed.sameWork {s t : Man σ ε} (h : Processed s t) : SameWork s t := by
  obtain ⟨_, _, _, _, _, _, _, _, _, rfl⟩ := h
  exact ⟨rfl, rfl, rfl, rfl⟩

theorem vmwCmdbufCtxAdd_sameWork (s : Man σ ε) (id : ℕ) (c : Cb) :
    SameWork s (vmwCmdbufCtxAdd H s id c) := by
  obtain ⟨_, h⟩ := vmwCmdbufCtxAdd_processed H s id c
  exact h.sameWork

theorem vmwCmdbufCurFlush_sameWork (s : Man σ ε) : SameWork s (vmwCmdbufCurFlush H s) := by
  obtain ⟨_, _, h⟩ := vmwCmdbufCurFlush_processed H s
  exact h.sameWork

theorem vmwCmdbufReserveCur_sameWork (s : Man σ ε) (size ctxId : ℕ) (plan : Plan) :
    SameWork s (vmwCmdbufReserveCur H s size ctxId plan) := by
  have hflush : SameWork s (if mustFlush s size ctxId then vmwCmdbufCurFlush H s else s) := by
    split_ifs
    · exact vmwCmdbufCurFlush_sameWork H s
    · exact ⟨rfl, rfl, rfl, rfl⟩
  have hcur : ∀ t : Man σ ε, SameWork t (ensureCur H t size plan).2 := by
    intro t
    unfold ensureCur
    split
    · exact ⟨rfl, rfl, rfl, rfl⟩
    · exact (vmwCmdbufAlloc_processed H t _ plan).sameWork
  have hall := hflush.trans (hcur _)
  unfold vmwCmdbufReserveCur
  dsimp only
  split <;> exact hall

theorem vmwCmdbufCommitCur_sameWork (s : Man σ ε) (id : ℕ) (cmds : List Command) (flush : Bool) :
    SameWork s (vmwCmdbufCommitCur H s id cmds flush) := by
  cases flush with
  | false => exact ⟨rfl, rfl, rfl, rfl⟩
  | true =>
    exact vmwCmdbufCurFlush_sameWork H (setHeader
      { s with curPos := s.curPos + totalSize cmds } id (commitIn (s.headers id) cmds))

theorem vmwCmdbufCommit_sameWork (s : Man σ ε) (id : ℕ) (cmds : List Command) (flush : Bool) :
    SameWork s (vmwCmdbufCommit H s id cmds flush) := by
  have h := vmwCmdbufCurFlush_sameWork H s
  cases flush with
  | false => exact h
  | true =>
    obtain ⟨h₁, h₂, h₃, h₄⟩ := vmwCmdbufCurFlush_sameWork H (setHeader
      { vmwCmdbufCurFlush H s with
        cur := some id, curPos := totalSize cmds
        hands := (vmwCmdbufCurFlush H s).hands.filter (· ≠ id) } id
      (commitIn ((vmwCmdbufCurFlush H s).headers id) cmds))
    exact h.trans ⟨h₁, h₂, h₃, h₄⟩

theorem sendDeviceCommand_sameWork (s : Man σ ε) (ok : Bool) (cmd : DeviceCommand) :
    SameWork s (sendDeviceCommand H s ok cmd).2 := by
  unfold sendDeviceCommand
  split_ifs
  · exact (tick_processed H s).sameWork
  · exact ⟨rfl, rfl, rfl, rfl⟩

end frame

end Vmwgfx.CmdbufMachine

import Vmwgfx.ExecbufState
import Vmwgfx.LabelledRuns
import Vmwgfx.Shares

set_option autoImplicit false

/-!
# Query buffers of DX contexts

The link between a buffer with the queries of a context and that context, as
`vmwgfx_context.c`, `vmwgfx_execbuf.c` and `vmwgfx_resource.c` keep it. One batch is
checked and submitted at a time. A context that nothing refers to any more is freed while
other threads go on, and so is what a readback does after its command is in the FIFO.
-/
namespace Vmwgfx.DxQuery
open ExecbufState (Errno)

inductive BatchPhase where
  | checking
  | reserved
  | ended
  deriving DecidableEq, Repr

/-- `struct vmw_sw_context` with its validation list; `dxCtx` is the context of
    `dx_ctx_node`. -/
structure SwContext where
  ctxs : List ℕ
  bos : List ℕ
  dxCtx : Option ℕ
  dxQueryMob : Option ℕ
  dxQueryCtx : Option ℕ
  phase : BatchPhase
  deriving DecidableEq, Repr

inductive FifoCmd where
  | readbackAllQuery (cid : ℕ)
  | bindAllQuery (cid mobid : ℕ)
  deriving DecidableEq, Repr

/-- `dxQueryMob` belongs to a context and `dxQueryCtx` to a buffer. `live` are the contexts
    whose memory is not freed, `freeing` those whose `vmw_user_context_free` has cleared the
    pointer to them. `readbacks` are the buffers that a readback is about to unlink;
    `otherCtxRefs` and `otherBoRefs` are the references of other holders. -/
structure QueryDev where
  live : Finset ℕ
  freeing : Finset ℕ
  ctxRefs : ℕ → ℤ
  dxQueryMob : ℕ → Option ℕ
  boRefs : ℕ → ℤ
  dxQueryCtx : ℕ → Option ℕ
  batch : Option SwContext
  readbacks : List ℕ
  fifo : List FifoCmd
  otherCtxRefs : ℕ → ℤ
  otherBoRefs : ℕ → ℤ

def start : QueryDev := ⟨∅, ∅, 0, fun _ => none, 0, fun _ => none, none, [], [], 0, 0⟩

def ctxRef (c : ℕ) (k : ℤ) (s : QueryDev) : QueryDev :=
  { s with ctxRefs := s.ctxRefs + Pi.single c k }

theorem ctxRef_of_ne {c a : ℕ} (h : a ≠ c) (k : ℤ) (s : QueryDev) :
    (ctxRef c k s).ctxRefs a = s.ctxRefs a := by
  simp [ctxRef, h]

def boRef (m : ℕ) (k : ℤ) (s : QueryDev) : QueryDev :=
  { s with boRefs := s.boRefs + Pi.single m k }

def setQueryCtx (m : ℕ) (c : Option ℕ) (s : QueryDev) : QueryDev :=
  { s with dxQueryCtx := Function.update s.dxQueryCtx m c }

@[simp] theorem setQueryCtx_self (m : ℕ) (c : Option ℕ) (s : QueryDev) :
    (setQueryCtx m c s).dxQueryCtx m = c := Function.update_self ..

theorem setQueryCtx_of_ne {m n : ℕ} (h : n ≠ m) (c : Option ℕ) (s : QueryDev) :
    (setQueryCtx m c s).dxQueryCtx n = s.dxQueryCtx n := Function.update_of_ne h ..

def setQueryMob (c : ℕ) (m : Option ℕ) (s : QueryDev) : QueryDev :=
  { s with dxQueryMob := Function.update s.dxQueryMob c m }

def emit (cmd : FifoCmd) (s : QueryDev) : QueryDev := { s with fifo := s.fifo ++ [cmd] }

/-- `vmw_context_bind_dx_query` with a buffer. -/
def vmwContextBindDxQuery (c m : ℕ) (s : QueryDev) : Option Errno × QueryDev :=
  match s.dxQueryMob c with
  | some m' => if m' ≠ m then (some .einval, s) else (none, setQueryCtx m (some c) s)
  | none => (none, setQueryMob c (some m) (boRef m 1 (setQueryCtx m (some c) s)))

/-- `vmw_context_bind_dx_query` without a buffer, by `vmw_user_context_free`: its first
    assignment. -/
def clearQueryCtx (c m : ℕ) (s : QueryDev) : QueryDev :=
  { setQueryCtx m none s with freeing := insert c s.freeing }

def dropQueryMob (c m : ℕ) (s : QueryDev) : QueryDev := setQueryMob c none (boRef m (-1) s)

/-- `vmw_rebind_all_dx_query`; `space` tells whether the FIFO has space. -/
def vmwRebindAllDxQuery (space : Bool) (c : ℕ) (s : QueryDev) : Option Errno × QueryDev :=
  match s.dxQueryMob c with
  | none => (none, s)
  | some m =>
    if (s.dxQueryCtx m).isSome then (none, s)
    else if space then (none, (vmwContextBindDxQuery c m (emit (.bindAllQuery c m) s)).2)
    else (some .enomem, s)

/-- `vmw_query_readback_all` until its command is in the FIFO. -/
def vmwQueryReadbackAll (space : Bool) (m : ℕ) (s : QueryDev) : Option Errno × QueryDev :=
  match s.dxQueryCtx m with
  | none => (none, s)
  | some c =>
    if space then
      (none, { emit (.readbackAllQuery c) s with readbacks := m :: s.readbacks })
    else (some .enomem, s)

/-- What `vmw_query_readback_all` does then. -/
def finishReadback (m : ℕ) (s : QueryDev) : QueryDev :=
  { setQueryCtx m none s with readbacks := s.readbacks.erase m }

/-- `vmw_query_move_notify`; `toSystem` tells that the buffer moves from a MOB to system
    memory. -/
def vmwQueryMoveNotify (toSystem space : Bool) (m : ℕ) (s : QueryDev) : QueryDev :=
  if toSystem then (vmwQueryReadbackAll space m s).2 else s

/-- The part of `vmw_dx_context_unbind` that is about queries. -/
def vmwDxContextUnbind (readback space : Bool) (c : ℕ) (s : QueryDev) : QueryDev :=
  match s.dxQueryMob c with
  | none => s
  | some m => if readback then (vmwQueryReadbackAll space m s).2 else s

/-- `vmw_validation_add_bo`. -/
def addBo (m : ℕ) (b : SwContext) (s : QueryDev) : QueryDev :=
  if m ∈ b.bos then { s with batch := some b }
  else { boRef m 1 s with batch := some { b with bos := m :: b.bos } }

/-- `vmw_validation_add_resource` for a context. -/
def addCtx (c : ℕ) (b : SwContext) (s : QueryDev) : QueryDev :=
  if c ∈ b.ctxs then { s with batch := some b }
  else { ctxRef c 1 s with batch := some { b with ctxs := c :: b.ctxs } }

/-- The check of `vmw_resources_reserve`. -/
def vmwResourcesReserve (b : SwContext) (s : QueryDev) : Option Errno :=
  match b.dxQueryMob, b.dxQueryCtx with
  | some m, some c =>
    match s.dxQueryMob c with
    | some m' => if m' ≠ m then some .einval else none
    | none => none
  | _, _ => none

def vmwBindDxQueryMob (b : SwContext) (s : QueryDev) : QueryDev :=
  match b.dxQueryMob, b.dxQueryCtx with
  | some m, some c => (vmwContextBindDxQuery c m s).2
  | _, _ => s

inductive Op where
  | newCtx (c : ℕ)
  | newBo (m : ℕ)
  /-- References of other holders. -/
  | holdCtx (c : ℕ)
  | putCtx (c : ℕ)
  | holdBo (m : ℕ)
  | putBo (m : ℕ)
  /-- The parts of `vmw_user_context_free`. -/
  | freeClear (c : ℕ)
  | freeDrop (c : ℕ)
  | freeEnd (c : ℕ)
  /-- A batch: its commands, the calls of `vmw_execbuf_process` and its clean-up. -/
  | begin
  | useCtx (c : ℕ) (tie : Bool)
  | useBo (m : ℕ)
  | bindQuery (m : ℕ)
  | reserve
  | fail
  | rebind (space : Bool) (c : ℕ)
  | commit
  | unrefCtx (c : ℕ)
  | unrefBo (m : ℕ)
  | finish
  | moveNotify (toSystem space : Bool) (m : ℕ)
  | unbind (readback space : Bool) (c : ℕ)
  | finishReadback (m : ℕ)
  deriving Repr

def inBatch (p : BatchPhase → Bool) (s : QueryDev) (f : SwContext → Option QueryDev) :
    Option QueryDev :=
  match s.batch with
  | none => none
  | some b => if p b.phase then f b else none

def step (s : QueryDev) : Op → Option QueryDev
  | .newCtx c =>
    if c ∈ s.live then none
    else
      let t := setQueryMob c none (ctxRef c 1 s)
      some { t with live := insert c s.live, otherCtxRefs := s.otherCtxRefs + Pi.single c 1 }
  | .newBo m =>
    if s.boRefs m = 0 then
      some { setQueryCtx m none (boRef m 1 s) with otherBoRefs := s.otherBoRefs + Pi.single m 1 }
    else none
  | .holdCtx c =>
    if 0 < s.ctxRefs c then
      some { ctxRef c 1 s with otherCtxRefs := s.otherCtxRefs + Pi.single c 1 }
    else none
  | .putCtx c =>
    if 0 < s.otherCtxRefs c then
      some { ctxRef c (-1) s with otherCtxRefs := s.otherCtxRefs - Pi.single c 1 }
    else none
  | .holdBo m =>
    if 0 < s.boRefs m then
      some { boRef m 1 s with otherBoRefs := s.otherBoRefs + Pi.single m 1 }
    else none
  | .putBo m =>
    if 0 < s.otherBoRefs m then
      some { boRef m (-1) s with otherBoRefs := s.otherBoRefs - Pi.single m 1 }
    else none
  | .freeClear c =>
    if c ∈ s.live ∧ s.ctxRefs c = 0 then (s.dxQueryMob c).map fun m => clearQueryCtx c m s
    else none
  | .freeDrop c =>
    if c ∈ s.freeing then (s.dxQueryMob c).map fun m => dropQueryMob c m s else none
  | .freeEnd c =>
    if c ∈ s.live ∧ s.ctxRefs c = 0 ∧ s.dxQueryMob c = none then
      some { s with live := s.live.erase c, freeing := s.freeing.erase c }
    else none
  | .begin =>
    if s.batch = none then some { s with batch := some ⟨[], [], none, none, none, .checking⟩ }
    else none
  | .useCtx c tie =>
    inBatch (· = .checking) s fun b =>
      if 0 < s.otherCtxRefs c then
        some (addCtx c (if tie then { b with dxCtx := some c } else b) s)
      else none
  | .useBo m =>
    inBatch (· = .checking) s fun b => if 0 < s.boRefs m then some (addBo m b s) else none
  | .bindQuery m =>
    -- `vmw_cmd_dx_bind_query` does not check that there is a `dx_ctx_node`
    inBatch (· = .checking) s fun b =>
      if 0 < s.boRefs m ∧ b.dxCtx.isSome then
        some (addBo m { b with dxQueryMob := some m, dxQueryCtx := b.dxCtx } s)
      else none
  | .reserve =>
    inBatch (· = .checking) s fun b =>
      some { s with batch := some { b with
        phase := if (vmwResourcesReserve b s).isSome then .ended else .reserved } }
  | .fail =>
    inBatch (· ≠ .ended) s fun b => some { s with batch := some { b with phase := .ended } }
  | .rebind space c =>
    inBatch (· = .reserved) s fun b =>
      if c ∈ b.ctxs then some (vmwRebindAllDxQuery space c s).2 else none
  | .commit =>
    inBatch (· = .reserved) s fun b =>
      some { vmwBindDxQueryMob b s with batch := some { b with phase := .ended } }
  | .unrefCtx c =>
    inBatch (· = .ended) s fun b =>
      if c ∈ b.ctxs then
        some { ctxRef c (-1) s with batch := some { b with ctxs := b.ctxs.erase c } }
      else none
  | .unrefBo m =>
    inBatch (· = .ended) s fun b =>
      if m ∈ b.bos then
        some { boRef m (-1) s with batch := some { b with bos := b.bos.erase m } }
      else none
  | .finish =>
    inBatch (· = .ended) s fun b =>
      if b.ctxs = [] ∧ b.bos = [] then some { s with batch := none } else none
  | .moveNotify toSystem space m => some (vmwQueryMoveNotify toSystem space m s)
  | .unbind readback space c =>
    if c ∈ s.live then some (vmwDxContextUnbind readback space c s) else none
  | .finishReadback m => if m ∈ s.readbacks then some (finishReadback m s) else none

end Vmwgfx.DxQuery

import Vmwgfx.ExecbufState

set_option autoImplicit false

/-!
# Fences for submissions

`vmw_execbuf_fence_commands` and what its callers do with the fence: the end of
`vmw_execbuf_process`, the fence event ioctl and the KMS helper. Every step that can fail
has its outcome in an `Attempt`; fences are named by their addresses, and nothing stands
for NULL.
-/
namespace Vmwgfx.ExecbufFence
open ExecbufState (Errno)

/-- How the steps end on which a fence depends, and what they give when they succeed. -/
structure Attempt where
  /-- The result of `vmw_fifo_send_fence`. -/
  sendFence : Option Errno
  sequence : ℕ
  /-- The result of `ttm_mem_global_alloc`. -/
  memGlobalAlloc : Option Errno
  kzalloc : Bool
  /-- `fman->fifo_down`. -/
  fifoDown : Bool
  /-- The result of `ttm_base_object_init`. -/
  baseObjectInit : Option Errno
  fence : ℕ
  handle : ℕ
  deriving DecidableEq, Repr

/-- `*p_fence` and `*p_handle`, the fences that are accounted for and the number of waits for
    the FIFO. -/
structure FenceOut where
  fence : Option ℕ
  handle : Option ℕ
  accounted : ℤ
  waits : ℕ
  deriving DecidableEq, Repr

def noFence : FenceOut := ⟨none, none, 0, 0⟩

inductive Fault where
  | bugOn
  | nullFence
  deriving DecidableEq, Repr

def ebusy : Errno := .other 16

def vmwFenceObjInit (a : Attempt) : Option Errno := if a.fifoDown then some ebusy else none

def vmwFenceCreate (a : Attempt) (s : FenceOut) : Option Errno × FenceOut :=
  if !a.kzalloc then (some .enomem, s)
  else match vmwFenceObjInit a with
    | some e => (some e, s)
    | none => (none, { s with fence := some a.fence })

/-- When `ttm_base_object_init` fails, the last reference to the fence is dropped, which
    frees the accounting, and it is freed again under `out_no_object`. -/
def vmwUserFenceCreate (a : Attempt) (s : FenceOut) : Option Errno × FenceOut :=
  match a.memGlobalAlloc with
  | some e => (some e, s)
  | none =>
    let t := { s with accounted := s.accounted + 1 }
    if !a.kzalloc then (some .enomem, { t with accounted := t.accounted - 1 })
    else match vmwFenceObjInit a with
      | some e => (some e, { t with accounted := t.accounted - 1 })
      | none => match a.baseObjectInit with
        | some e => (some e, { t with accounted := t.accounted - 1 - 1 })
        | none => (none, { t with fence := some a.fence, handle := some a.handle })

/-- `filePriv` and `pHandle` tell that these arguments are not NULL. -/
def vmwExecbufFenceCommands (a : Attempt) (filePriv pHandle : Bool) (s : FenceOut) :
    Except Fault (Option Errno × FenceOut) :=
  if pHandle && !filePriv then .error .bugOn
  else
    let synced := a.sendFence.isSome
    let s := if synced then { s with waits := s.waits + 1 } else s
    let r := if pHandle then vmwUserFenceCreate a s else vmwFenceCreate a s
    if r.1.isSome && !synced then
      .ok (none, { r.2 with waits := r.2.waits + 1, fence := none })
    else .ok (none, r.2)

/-- `struct drm_vmw_fence_rep`, without the seqno that has passed. -/
structure FenceRep where
  error : Option Errno
  handle : Option ℕ
  seqno : ℕ
  fd : ℤ
  deriving DecidableEq, Repr

/-- The result is what the user finds in `fence_rep`. -/
def vmwExecbufCopyFenceUser (a : Attempt) (ret : Option Errno) (userFenceRep : Bool)
    (fence handle : Option ℕ) (outFenceFd : ℤ) (copyOk : Bool) :
    Except Fault (Option FenceRep) :=
  if !userFenceRep then .ok none
  else match ret, fence with
    | none, none => .error .bugOn
    -- a fence that the user cannot see is waited for
    | none, some _ =>
      .ok (if copyOk then some ⟨none, handle, a.sequence, outFenceFd⟩ else none)
    | some e, _ => .ok (if copyOk then some ⟨some e, none, 0, outFenceFd⟩ else none)

/-- `sync_file_create(&fence->base)`. -/
def syncFileCreate (fence : Option ℕ) (ok : Bool) : Except Fault Bool :=
  match fence with
  | none => .error .nullFence
  | some _ => .ok ok

/-- `vmw_execbuf_process` after a successful submission, as far as the fence is concerned.
    The file descriptor 3 has been reserved for the sync file. -/
def vmwExecbufProcess (a : Attempt) (userFenceRep exportFenceFd syncFile copyOk : Bool) :
    Except Fault (Option FenceRep) := do
  let r ← vmwExecbufFenceCommands a true userFenceRep noFence
  let fd ← if exportFenceFd then
      (syncFileCreate r.2.fence syncFile).map fun ok => if ok then (3 : ℤ) else -1
    else pure (-1)
  vmwExecbufCopyFenceUser a r.1 userFenceRep r.2.fence r.2.handle fd copyOk

/-- `lookup` is the fence of `arg->handle`, with the result of the new user reference. -/
def vmwFenceEventIoctl (a : Attempt) (lookup : Option (Except Errno ℕ × Option Errno))
    (userFenceRep : Bool) (eventFenceActionCreate : Option Errno) (copyOk : Bool) :
    Except Fault (Option Errno) :=
  match lookup with
  | some (.error e, _) => .ok (some e)
  | some (.ok fence, refAdd) =>
    if userFenceRep ∧ refAdd.isSome then .ok refAdd
    else finish (some fence) (some a.handle)
  | none => do
    let r ← vmwExecbufFenceCommands a true userFenceRep noFence
    match r.1 with
    | some e => .ok (some e)
    | none => finish r.2.fence r.2.handle
where
  finish (fence handle : Option ℕ) : Except Fault (Option Errno) :=
    if fence = none then .error .bugOn
    else match eventFenceActionCreate with
      | some e => .ok (some e)
      | none => do
        let _ ← vmwExecbufCopyFenceUser a none userFenceRep fence handle (-1) copyOk
        .ok none

/-- `ret` has no value when the fence is not needed; it is read only if there is a file. -/
def vmwKmsHelperValidationFinish (a : Attempt) (filePriv userFenceRep hasBos outFence copyOk : Bool) :
    Except Fault (Option FenceRep) := do
  let r ← if filePriv || userFenceRep || hasBos || outFence then
      vmwExecbufFenceCommands a filePriv filePriv noFence
    else pure (none, noFence)
  if filePriv then
    vmwExecbufCopyFenceUser a r.1 userFenceRep r.2.fence r.2.handle (-1) copyOk
  else pure none

inductive Caller where
  | execbuf (userFenceRep exportFenceFd syncFile copyOk : Bool)
  | fenceEvent (lookup : Option (Except Errno ℕ × Option Errno)) (userFenceRep : Bool)
      (eventFenceActionCreate : Option Errno) (copyOk : Bool)
  | kms (filePriv userFenceRep hasBos outFence copyOk : Bool)

/-- The file and the handle that the caller passes, if it asks for a fence. -/
def Caller.call : Caller → Option (Bool × Bool)
  | .execbuf userFenceRep _ _ _ => some (true, userFenceRep)
  | .fenceEvent lookup userFenceRep _ _ => if lookup.isSome then none else some (true, userFenceRep)
  | .kms filePriv userFenceRep hasBos outFence _ =>
    if filePriv || userFenceRep || hasBos || outFence then some (filePriv, filePriv) else none

def Caller.fault (a : Attempt) : Caller → Option Fault
  | .execbuf rep exp sync copy =>
    match vmwExecbufProcess a rep exp sync copy with
    | .error f => some f
    | .ok _ => none
  | .fenceEvent lookup rep action copy =>
    match vmwFenceEventIoctl a lookup rep action copy with
    | .error f => some f
    | .ok _ => none
  | .kms file rep bos out copy =>
    match vmwKmsHelperValidationFinish a file rep bos out copy with
    | .error f => some f
    | .ok _ => none

def Creates (a : Attempt) (pHandle : Bool) : Prop :=
  a.kzalloc = true ∧ a.fifoDown = false ∧
    (pHandle = true → a.memGlobalAlloc = none ∧ a.baseObjectInit = none)

/-- Zero comes with a fence, and the caller runs into no fault. -/
def Meets (a : Attempt) (c : Caller) : Prop :=
  (∀ file handle, c.call = some (file, handle) → ∀ s,
    vmwExecbufFenceCommands a file handle noFence = .ok (none, s) → s.fence ≠ none) ∧
  c.fault a = none

theorem vmwFenceCreate_spec (a : Attempt) (s : FenceOut) :
    (Creates a false ∧ vmwFenceCreate a s = (none, { s with fence := some a.fence })) ∨
    (¬ Creates a false ∧ ∃ e, vmwFenceCreate a s = (some e, s)) := by
  unfold Creates vmwFenceCreate vmwFenceObjInit
  cases a.kzalloc <;> cases a.fifoDown <;> simp

theorem vmwUserFenceCreate_spec (a : Attempt) (s : FenceOut) :
    (Creates a true ∧ vmwUserFenceCreate a s = (none, { s with
      accounted := s.accounted + 1, fence := some a.fence, handle := some a.handle })) ∨
    (¬ Creates a true ∧ ∃ e n, vmwUserFenceCreate a s = (some e, { s with accounted := n })) := by
  unfold Creates vmwUserFenceCreate vmwFenceObjInit
  cases hmem : a.memGlobalAlloc with
  | some e => exact .inr ⟨by simp, e, s.accounted, rfl⟩
  | none =>
    cases hk : a.kzalloc with
    | false => exact .inr ⟨by simp, .enomem, _, rfl⟩
    | true =>
      cases hdown : a.fifoDown with
      | true => exact .inr ⟨by simp, ebusy, _, rfl⟩
      | false =>
        cases hbase : a.baseObjectInit with
        | some e => exact .inr ⟨by simp, e, _, rfl⟩
        | none => exact .inl ⟨by simp, rfl⟩

theorem vmwExecbufFenceCommands_spec (a : Attempt) (filePriv pHandle : Bool)
    (h : pHandle = true → filePriv = true) :
    ∃ s, vmwExecbufFenceCommands a filePriv pHandle noFence = .ok (none, s) ∧
      (Creates a pHandle → s.fence = some a.fence) ∧ (¬ Creates a pHandle → s.fence = none) := by
  have hbug : (pHandle && !filePriv) = false := by
    cases pHandle
    · rfl
    · simp [h rfl]
  unfold vmwExecbufFenceCommands
  rw [hbug]
  simp only [Bool.false_eq_true, if_false]
  generalize hs : (if a.sendFence.isSome = true then { noFence with waits := noFence.waits + 1 }
    else noFence) = s
  have hfence : s.fence = none := by
    rw [← hs]
    split <;> rfl
  cases pHandle with
  | true =>
    rcases vmwUserFenceCreate_spec a s with ⟨hc, hr⟩ | ⟨hc, e, n, hr⟩
    · exact ⟨_, by simp only [if_true, hr]; rfl, fun _ => rfl, fun hn => absurd hc hn⟩
    · simp only [if_true, hr, Option.isSome_some, Bool.true_and]
      cases a.sendFence.isSome
      · exact ⟨_, rfl, fun h => absurd h hc, fun _ => rfl⟩
      · exact ⟨_, rfl, fun h => absurd h hc, fun _ => hfence⟩
  | false =>
    rcases vmwFenceCreate_spec a s with ⟨hc, hr⟩ | ⟨hc, e, hr⟩
    · exact ⟨_, by simp only [Bool.false_eq_true, if_false, hr]; rfl, fun _ => rfl,
        fun hn => absurd hc hn⟩
    · simp only [Bool.false_eq_true, if_false, hr, Option.isSome_some, Bool.true_and]
      cases a.sendFence.isSome
      · exact ⟨_, rfl, fun h => absurd h hc, fun _ => rfl⟩
      · exact ⟨_, rfl, fun h => absurd h hc, fun _ => hfence⟩

theorem copyFenceUser_ok (a : Attempt) (ret : Option Errno) (rep copy : Bool) (fence : ℕ)
    (handle : Option ℕ) (fd : ℤ) :
    ∃ r, vmwExecbufCopyFenceUser a ret rep (some fence) handle fd copy = .ok r := by
  unfold vmwExecbufCopyFenceUser
  cases rep <;> cases ret <;> exact ⟨_, rfl⟩

theorem fenceEvent_finish_ok (a : Attempt) (rep copy : Bool) (action : Option Errno) (fence : ℕ)
    (handle : Option ℕ) :
    ∃ r, vmwFenceEventIoctl.finish a rep action copy (some fence) handle = .ok r := by
  unfold vmwFenceEventIoctl.finish
  obtain ⟨r, hr⟩ := copyFenceUser_ok a none rep copy fence handle (-1)
  cases action with
  | some e => exact ⟨_, rfl⟩
  | none =>
    simp only [reduceCtorEq, if_false, hr]
    exact ⟨_, rfl⟩

theorem fault_eq_none (a : Attempt) (c : Caller)
    (h : ∀ file handle, c.call = some (file, handle) → Creates a handle) : c.fault a = none := by
  cases c with
  | execbuf rep exp sync copy =>
    obtain ⟨s, hs, hf, -⟩ := vmwExecbufFenceCommands_spec a true rep fun _ => rfl
    have hfence := hf (h true rep rfl)
    have hrun : ∃ r, vmwExecbufProcess a rep exp sync copy = .ok r := by
      obtain ⟨fence, handle, accounted, waits⟩ := s
      subst hfence
      unfold vmwExecbufProcess
      rw [hs]
      cases exp with
      | false => exact copyFenceUser_ok a none rep copy a.fence handle _
      | true => exact copyFenceUser_ok a none rep copy a.fence handle _
    obtain ⟨r, hr⟩ := hrun
    simp only [Caller.fault, hr]
  | fenceEvent lookup rep action copy =>
    have hrun : ∃ r, vmwFenceEventIoctl a lookup rep action copy = .ok r := by
      unfold vmwFenceEventIoctl
      match lookup with
      | some (.error e, _) => exact ⟨_, rfl⟩
      | some (.ok fence, refAdd) =>
        dsimp only
        split
        · exact ⟨_, rfl⟩
        · exact fenceEvent_finish_ok a rep copy action fence _
      | none =>
        obtain ⟨s, hs, hf, -⟩ := vmwExecbufFenceCommands_spec a true rep fun _ => rfl
        dsimp only
        rw [hs]
        change ∃ r, vmwFenceEventIoctl.finish a rep action copy s.fence s.handle = .ok r
        rw [hf (h true rep rfl)]
        exact fenceEvent_finish_ok a rep copy action a.fence _
    obtain ⟨r, hr⟩ := hrun
    simp only [Caller.fault, hr]
  | kms file rep bos out copy =>
    have hrun : ∃ r, vmwKmsHelperValidationFinish a file rep bos out copy = .ok r := by
      unfold vmwKmsHelperValidationFinish
      by_cases hask : (file || rep || bos || out) = true
      · obtain ⟨s, hs, hf, -⟩ := vmwExecbufFenceCommands_spec a file file id
        rw [if_pos hask, hs]
        change ∃ r, (if file = true then _ else _) = _
        rw [hf (h file file (by simp only [Caller.call, hask, if_true]))]
        cases file with
        | false => exact ⟨_, rfl⟩
        | true => exact copyFenceUser_ok a none rep copy a.fence s.handle (-1)
      · have hfile : file = false := by
          cases file
          · rfl
          · simp at hask
        subst hfile
        rw [if_neg hask]
        exact ⟨_, rfl⟩
    obtain ⟨r, hr⟩ := hrun
    simp only [Caller.fault, hr]

theorem handle_of_call {c : Caller} {file handle : Bool} (h : c.call = some (file, handle)) :
    handle = true → file = true := by
  intro hh
  cases c with
  | execbuf =>
    simp only [Caller.call, Option.some.injEq, Prod.mk.injEq] at h
    exact h.1.symm
  | fenceEvent lookup =>
    simp only [Caller.call, Option.ite_none_left_eq_some, Option.some.injEq, Prod.mk.injEq] at h
    exact h.2.1.symm
  | kms =>
    simp only [Caller.call, Option.ite_none_right_eq_some, Option.some.injEq, Prod.mk.injEq] at h
    rw [← h.2.1, h.2.2, hh]

/-- For all outcomes of the steps and every caller. -/
theorem meets_iff (a : Attempt) (c : Caller) :
    Meets a c ↔ ∀ file handle, c.call = some (file, handle) → Creates a handle := by
  constructor
  · rintro ⟨hret, -⟩ file handle hcall
    obtain ⟨s, hs, -, hnone⟩ := vmwExecbufFenceCommands_spec a file handle (handle_of_call hcall)
    by_contra hc
    exact hret file handle hcall s hs (hnone hc)
  · refine fun h => ⟨fun file handle hcall s hs => ?_, fault_eq_none a c h⟩
    obtain ⟨t, ht, hf, -⟩ := vmwExecbufFenceCommands_spec a file handle (handle_of_call hcall)
    rw [ht] at hs
    cases hs
    rw [hf (h file handle hcall)]
    exact Option.some_ne_none _

/-- There is no memory for the fence of a submission with a `fence_rep`. -/
theorem noMemory_bugOn :
    ¬ Meets ⟨none, 7, none, false, false, none, 4096, 1⟩ (.execbuf true false true true) ∧
    Caller.fault ⟨none, 7, none, false, false, none, 4096, 1⟩ (.execbuf true false true true) =
      some .bugOn := by
  refine ⟨fun h => ?_, by decide⟩
  have := h.2
  revert this
  decide

end Vmwgfx.ExecbufFence

import Vmwgfx.FenceMachine

set_option autoImplicit false

/-!
# Fence actions

Who performs the actions of fences and who cleans up after them: `__vmw_fences_update`,
`vmw_fence_obj_add_action`, `vmw_fence_fifo_down` and the work function. Everything under
`fman->lock` is one step; the branch of `vmw_fence_fifo_down` for a failed wait, which does
without the lock, is made of the loads and stores that others may come between.
-/
namespace Vmwgfx.FenceActions
open FenceMachine LabelledRuns Word32

section Wait

/-- One round of the loop in `vmw_fence_wait`: whether the fence is signaled, whether a signal
    is pending, and what `schedule_timeout` returns. -/
structure WaitRound where
  signaled : Bool
  signalPending : Bool
  left : ℕ
  deriving DecidableEq, Repr

def erestartsys : ℤ := -512

def ebusy : ℤ := -16

/-- `DRM_ERROR("… Ignoring and restarting wait.")`. -/
def vmwFenceTimeoutError (timeout : ℤ) : ℤ := timeout

/-- The rest of the loop of `vmw_fence_wait`; it goes on while there are rounds. -/
def vmwFenceWaitLoop (intr : Bool) (timeout : ℤ) : ℤ → List WaitRound → Option ℤ
  | _, [] => none
  | ret, r :: rs =>
    if r.signaled then some (if ret = 0 ∧ 0 < timeout then 1 else ret)
    else if intr && r.signalPending then some erestartsys
    else if ret = 0 ∧ vmwFenceTimeoutError timeout = 0 then some 0
    else vmwFenceWaitLoop intr timeout r.left rs

/-- `already` is the result of `vmw_fence_obj_signaled`. -/
def vmwFenceWait (intr already signalPending : Bool) (timeout : ℤ) (rounds : List WaitRound) :
    Option ℤ :=
  if already then some timeout
  else if intr && signalPending then some erestartsys
  else vmwFenceWaitLoop intr timeout timeout rounds

def vmwFenceObjWait (intr already signalPending : Bool) (timeout : ℤ) (rounds : List WaitRound) :
    Option ℤ :=
  (vmwFenceWait intr already signalPending timeout rounds).map fun ret =>
    if 0 < ret then 0 else if ret = 0 then ebusy else ret

theorem vmwFenceWaitLoop_pos {timeout ret : ℤ} (ht : 0 < timeout) (hret : 0 ≤ ret)
    {rounds : List WaitRound} {r : ℤ} (h : vmwFenceWaitLoop false timeout ret rounds = some r) :
    0 < r := by
  induction rounds generalizing ret with
  | nil => cases h
  | cons x rounds ih =>
    unfold vmwFenceWaitLoop at h
    simp only [Bool.false_and, Bool.false_eq_true, if_false] at h
    split_ifs at h with hs hzero htimeout
    · cases h
      omega
    · cases h
      omega
    · unfold vmwFenceTimeoutError at htimeout
      omega
    · exact ih (Int.natCast_nonneg _) h

theorem vmwFenceObjWait_uninterruptible {already pending : Bool} {timeout : ℤ} (ht : 0 < timeout)
    {rounds : List WaitRound} {r : ℤ}
    (h : vmwFenceObjWait false already pending timeout rounds = some r) : r = 0 := by
  obtain ⟨ret, hret, rfl⟩ := Option.map_eq_some_iff.1 h
  unfold vmwFenceWait at hret
  simp only [Bool.false_and, Bool.false_eq_true, if_false] at hret
  split_ifs at hret
  · cases hret
    exact if_pos ht
  · exact if_pos (vmwFenceWaitLoop_pos ht ht.le hret)

end Wait

/-- Where `vmw_fence_fifo_down` is. From `removed` on it has no lock: the fence is off the list,
    it is signaled, its actions are on a list of the function and are taken from it, and the
    counter is loaded and stored. -/
inductive Down where
  | idle
  | looking
  | waiting (id : ℕ)
  | removed (f : FenceObj)
  | signaled (f : FenceObj)
  | performing (id : ℕ) (todo : List FenceAction)
  | taken (id : ℕ) (a : FenceAction) (todo : List FenceAction)
  | loaded (id : ℕ) (a : FenceAction) (todo : List FenceAction) (pending : ℕ)
  | stored (id : ℕ) (a : FenceAction) (todo : List FenceAction)
  | passed (id : ℕ) (a : FenceAction) (todo : List FenceAction)
  deriving DecidableEq, Repr

def Down.fence : Down → Option ℕ
  | .idle | .looking => none
  | .waiting id | .performing id _ | .taken id _ _ | .loaded id _ _ _ | .stored id _ _
  | .passed id _ _ => some id
  | .removed f | .signaled f => some f.id

structure ActionMan where
  man : FenceMan
  /-- All actions that were ever added. -/
  added : List FenceAction
  /-- The private list of the work function while it runs. -/
  worker : Option (List FenceAction)
  /-- The actions whose `cleanup` has run. -/
  cleaned : List FenceAction
  down : Down
  takenDown : Bool
  bugOn : Bool

def start (lastReadSeqno goal : ℕ) (capFence : Bool) : ActionMan where
  man := FenceMachine.start lastReadSeqno goal capFence
  added := []
  worker := none
  cleaned := []
  down := .idle
  takenDown := false
  bugOn := false

/-- The steps of `FenceMachine` that are taken over; a referenced fence keeps its address. -/
def others (s : ActionMan) (a : FenceMachine.Act) : Option ActionMan :=
  match a with
  | .addAction _ _ | .fifoDown | .fifoDownExpire => none
  | .objInit _ id | .destroy id =>
    if s.down.fence = some id then none
    else (FenceMachine.step s.man a).map fun m => { s with man := m }
  | _ => (FenceMachine.step s.man a).map fun m => { s with man := m }

/-- `dma_fence_enable_sw_signaling`: a fence whose seqno has passed is signaled where it is. -/
def enableSignaling (s : ActionMan) (id : ℕ) : Option ActionMan :=
  (s.man.fenceList.find? fun f => f.id = id).map fun f =>
    if passed s.man.fence f ∧ id ∉ s.man.signaled then
      { s with man := { s.man with signaled := s.man.signaled ++ [id] } }
    else s

/-- A fence that `vmw_fence_fifo_down` has taken off the list can still get actions. -/
def vmwFenceObjAddAction (s : ActionMan) (id : ℕ) (a : FenceAction) : Option ActionMan :=
  match s.down with
  | .removed f =>
    if f.id = id ∧ id ∉ s.man.signaled then
      let r := vmwFenceGoalCheckLocked (countAction s.man a) f
      some { s with
        man := { r.2 with goalIrqOn := r.2.goalIrqOn || r.1 }
        added := s.added ++ [a]
        down := .removed { f with seqPassedActions := f.seqPassedActions ++ [a] } }
    else attached
  | _ => attached
where
  attached := (FenceMachine.vmwFenceObjAddAction s.man id a).map fun m =>
    { s with man := m, added := s.added ++ [a] }

def vmwFenceWaitTimeout (hz : ℕ+) : ℤ := 5 * hz

/-- The end of a wait: a fence that is signaled has to be off the list, which is asserted. -/
def downWait (hz : ℕ+) (s : ActionMan) (already : Bool) (rounds : List WaitRound) :
    Option ActionMan :=
  match s.down with
  | .waiting id =>
    match vmwFenceObjWait false already false (vmwFenceWaitTimeout hz) rounds with
    | none => none
    | some ret =>
      if ret = 0 then
        if id ∈ s.man.signaled ∧ id ∉ s.man.fenceList.map FenceObj.id then
          some { s with down := .looking }
        else none
      else
        some { s with
          man := { s.man with fenceList := s.man.fenceList.filter fun f => f.id ≠ id }
          down := .removed ((s.man.fenceList.find? fun f => f.id = id).getD ⟨id, 0, []⟩) }
  | _ => none

def downStep (s : ActionMan) : Option ActionMan :=
  match s.down with
  | .idle =>
    some { s with man := { s.man with fifoDown := true }, down := .looking }
  | .looking =>
    match s.man.fenceList.getLast? with
    | none => some { s with down := .idle }
    | some f => some { s with down := .waiting f.id }
  | .waiting _ => none
  | .removed f =>
    some { s with
      man := { s.man with signaled := s.man.signaled ++ [f.id] }
      down := .signaled f }
  | .signaled f => some { s with down := .performing f.id f.seqPassedActions }
  | .performing _ [] => some { s with down := .looking }
  | .performing id (a :: todo) => some { s with down := .taken id a todo }
  | .taken id a todo => some { s with down := .loaded id a todo (s.man.pendingActions a.type) }
  | .loaded id a todo pending =>
    some { s with
      man := { s.man with
        pendingActions := Function.update s.man.pendingActions a.type (subU32 pending 1) }
      down := .stored id a todo }
  | .stored id a todo =>
    some { s with
      man := { s.man with seqPassedRun := s.man.seqPassedRun ++ [a.id] }
      down := .passed id a todo }
  | .passed id a todo =>
    some { s with
      man := { s.man with cleanupList := s.man.cleanupList ++ [a] }
      down := .performing id todo }

/-- The workqueue runs the work; it does not run twice at a time. -/
def workStart (s : ActionMan) : Option ActionMan :=
  if s.worker = none ∧ s.man.workScheduled then
    some { s with man := { s.man with workScheduled := false }, worker := some [] }
  else none

/-- `vmw_fence_work_func`: a pass of its loop takes the whole `cleanup_list`, and the function
    returns after one that finds it empty. -/
def vmwFenceWorkFunc (s : ActionMan) : Option ActionMan :=
  match s.worker with
  | none => none
  | some (a :: list) => some { s with worker := some list, cleaned := s.cleaned ++ [a] }
  | some [] =>
    some { s with
      man := { s.man with
        cleanupList := []
        goalIrqOn := s.man.goalIrqOn && s.man.seqnoValid }
      worker := if s.man.cleanupList = [] then none else some s.man.cleanupList }

/-- `vmw_fence_manager_takedown`: `cancel_work_sync` waits for the work function and drops work
    that is queued. -/
def vmwFenceManagerTakedown (s : ActionMan) : Option ActionMan :=
  if s.worker = none ∧ s.down = .idle then
    some { s with
      man := { s.man with workScheduled := false }
      takenDown := true
      bugOn := !(s.man.fenceList.isEmpty && s.man.cleanupList.isEmpty) }
  else none

inductive Act where
  | others (a : FenceMachine.Act)
  | enableSignaling (id : ℕ)
  | addAction (id : ℕ) (a : FenceAction)
  | downWait (already : Bool) (rounds : List WaitRound)
  | downStep
  | workStart
  | work
  | takedown
  deriving DecidableEq

/-- An action is added once; nothing happens after the takedown. -/
def step (hz : ℕ+) (s : ActionMan) (a : Act) : Option ActionMan :=
  if s.takenDown then none
  else match a with
    | .others a => others s a
    | .enableSignaling id => enableSignaling s id
    | .addAction id a =>
      if a.id ∈ s.added.map FenceAction.id then none else vmwFenceObjAddAction s id a
    | .downWait already rounds => downWait hz s already rounds
    | .downStep => downStep s
    | .workStart => workStart s
    | .work => vmwFenceWorkFunc s
    | .takedown => vmwFenceManagerTakedown s

end Vmwgfx.FenceActions

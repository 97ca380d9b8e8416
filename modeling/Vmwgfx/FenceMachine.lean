import Vmwgfx.Word32
import Vmwgfx.LabelledRuns

set_option autoImplicit false

/-!
# The fence manager

`vmwgfx_fence.c` together with the marker counter of `vmwgfx_fifo.c`. A
submitter first allots a seqno in `vmw_fifo_send_fence` and later, in another
critical section, puts the fence object on `fence_list`; the device executes
the emitted fence commands in FIFO order, and may do so before every read of
`SVGA_FIFO_FENCE`.
-/
namespace Vmwgfx.FenceMachine
open Word32

inductive ActionType where
  | event
  deriving DecidableEq, Repr

structure FenceAction where
  id : ℕ
  type : ActionType
  deriving DecidableEq, Repr

/-- A `struct vmw_fence_obj`; `id` is its address. -/
structure FenceObj where
  id : ℕ
  seqno : ℕ
  seqPassedActions : List FenceAction
  deriving DecidableEq, Repr

structure FenceMan where
  fenceList : List FenceObj
  /-- Objects whose `DMA_FENCE_FLAG_SIGNALED_BIT` is set. -/
  signaled : List ℕ
  numFenceObjects : ℤ
  fifoDown : Bool
  cleanupList : List FenceAction
  pendingActions : ActionType → ℕ
  goalIrqOn : Bool
  seqnoValid : Bool
  workScheduled : Bool
  /-- Actions whose `seq_passed` callback has run, in order. -/
  seqPassedRun : List ℕ
  /-- `SVGA_FIFO_FENCE_GOAL`. -/
  fenceGoal : ℕ
  /-- `SVGA_FIFO_FENCE`. -/
  fence : ℕ
  /-- Fence commands in the FIFO that the device has not executed. -/
  markers : List ℕ
  markerSeq : ℕ
  capFence : Bool
  /-- Seqnos allotted by a submitter that has not yet initialised its fence. -/
  inflight : List (ℕ × ℕ)

/-- The state left by `vmw_fifo_init` and `vmw_fence_fifo_up`. -/
def start (lastReadSeqno goal : ℕ) (capFence : Bool) : FenceMan where
  fenceList := []
  signaled := []
  numFenceObjects := 0
  fifoDown := false
  cleanupList := []
  pendingActions := fun _ => 0
  goalIrqOn := false
  seqnoValid := false
  workScheduled := false
  seqPassedRun := []
  fenceGoal := goal
  fence := lastReadSeqno
  markers := []
  markerSeq := lastReadSeqno
  capFence := capFence
  inflight := []

/-- The device executes the next `k` fence commands. -/
def deviceRun : ℕ → FenceMan → FenceMan
  | 0, s => s
  | k + 1, s =>
    match s.markers with
    | [] => s
    | m :: ms => deviceRun k { s with fence := m, markers := ms }

/-- `seqno - fence->base.seqno < VMW_FENCE_WRAP`. -/
def passed (seqno : ℕ) (f : FenceObj) : Bool := decide (subU32 seqno f.seqno < 2 ^ 31)

def performAction (s : FenceMan) (a : FenceAction) : FenceMan :=
  { s with
    pendingActions := Function.update s.pendingActions a.type (subU32 (s.pendingActions a.type) 1)
    seqPassedRun := s.seqPassedRun ++ [a.id]
    cleanupList := s.cleanupList ++ [a] }

def vmwFencesPerformActions (s : FenceMan) (actions : List FenceAction) : FenceMan :=
  actions.foldl performAction s

/-- Take the fence off `fence_list`, leaving `rest`, signal it and run its actions. -/
def signalFence (s : FenceMan) (f : FenceObj) (rest : List FenceObj) : FenceMan :=
  vmwFencesPerformActions
    { s with fenceList := rest, signaled := s.signaled ++ [f.id] } f.seqPassedActions

/-- The loop over `fence_list` in `__vmw_fences_update`. -/
def scanFences (seqno : ℕ) : List FenceObj → FenceMan → FenceMan
  | [], s => s
  | f :: rest, s => if passed seqno f then scanFences seqno rest (signalFence s f rest) else s

def vmwFenceGoalNewLocked (s : FenceMan) (passedSeqno : ℕ) : Bool × FenceMan :=
  if s.seqnoValid = false then (false, s)
  else if 2 ^ 31 ≤ subU32 passedSeqno s.fenceGoal then (false, s)
  else
    match s.fenceList.find? fun f => !f.seqPassedActions.isEmpty with
    | none => (true, { s with seqnoValid := false })
    | some f => (true, { s with seqnoValid := true, fenceGoal := f.seqno })

def vmwFenceGoalCheckLocked (s : FenceMan) (f : FenceObj) : Bool × FenceMan :=
  if f.id ∈ s.signaled then (false, s)
  else if s.seqnoValid = true ∧ subU32 s.fenceGoal f.seqno < 2 ^ 31 then (false, s)
  else (true, { s with fenceGoal := f.seqno, seqnoValid := true })

/-- One pass from the `rerun` label of `__vmw_fences_update`; the flag says that
    the fence goal was updated. -/
def updatePass (s : FenceMan) (seqno : ℕ) : Bool × FenceMan :=
  vmwFenceGoalNewLocked (scanFences seqno s.fenceList s) seqno

/-- The passes of `__vmw_fences_update`. Each entry of `ks` is the device's
    progress before one more read of `SVGA_FIFO_FENCE`; without progress the seqno
    read again is the old one. The seqnos that started a pass are returned. -/
def rerun : List ℕ → FenceMan → ℕ → List ℕ × FenceMan
  | [], s, seqno => ([seqno], (updatePass s seqno).2)
  | k :: ks, s, seqno =>
    let p := updatePass s seqno
    if p.1 = false then ([seqno], p.2)
    else
      let v := deviceRun k p.2
      if v.fence = seqno then ([seqno], v)
      else (seqno :: (rerun ks v v.fence).1, (rerun ks v v.fence).2)

/-- `__vmw_fences_update`, with the device making progress `k` before the first
    read of its seqno and `ks` before the later ones. -/
def vmwFencesUpdate (k : ℕ) (ks : List ℕ) (s : FenceMan) : List ℕ × FenceMan :=
  let s := deviceRun k s
  let r := rerun ks s s.fence
  (r.1, { r.2 with workScheduled := r.2.workScheduled || !r.2.cleanupList.isEmpty })

/-- The seqno loop of `vmw_fifo_send_fence`, which never hands out zero. -/
def nextSeqno (markerSeq : ℕ) : ℕ :=
  if addU32 markerSeq 1 = 0 then addU32 (addU32 markerSeq 1) 1 else addU32 markerSeq 1

def vmwFifoSendFence (s : FenceMan) (who : ℕ) : FenceMan :=
  { s with
    markerSeq := nextSeqno s.markerSeq
    markers := if s.capFence then s.markers ++ [nextSeqno s.markerSeq] else s.markers
    inflight := (who, nextSeqno s.markerSeq) :: s.inflight }

/-- `vmw_fifo_send_fence` without FIFO space: no marker is emitted, and
    `vmw_fallback_wait` writes the last allotted seqno to `SVGA_FIFO_FENCE` once
    the FIFO is idle or the wait has timed out. -/
def vmwFifoSendFenceFail (s : FenceMan) (who : ℕ) (idle : Bool) : FenceMan :=
  { s with
    markers := if idle then [] else s.markers
    fence := s.markerSeq
    inflight := (who, s.markerSeq) :: s.inflight }

def forget (who : ℕ) (s : FenceMan) : FenceMan :=
  { s with inflight := s.inflight.filter fun p => p.1 ≠ who }

/-- `vmw_fence_obj_init`; with the FIFO down it returns `-EBUSY`. -/
def vmwFenceObjInit (s : FenceMan) (id seqno : ℕ) : FenceMan :=
  if s.fifoDown then s
  else
    { s with
      fenceList := s.fenceList ++ [⟨id, seqno, []⟩]
      numFenceObjects := s.numFenceObjects + 1 }

def attach (id : ℕ) (a : FenceAction) (f : FenceObj) : FenceObj :=
  if f.id = id then { f with seqPassedActions := f.seqPassedActions ++ [a] } else f

def countAction (s : FenceMan) (a : FenceAction) : FenceMan :=
  { s with
    pendingActions :=
      Function.update s.pendingActions a.type (addU32 (s.pendingActions a.type) 1) }

def attachAction (s : FenceMan) (id : ℕ) (a : FenceAction) : FenceMan :=
  { s with fenceList := s.fenceList.map (attach id a) }

/-- Adding the action to an unsignalled fence and checking the goal; a changed
    goal also switches the goal interrupt on. -/
def attachAndCheck (s : FenceMan) (f : FenceObj) (a : FenceAction) : FenceMan :=
  let r := vmwFenceGoalCheckLocked (attachAction (countAction s a) f.id a) f
  { r.2 with goalIrqOn := r.2.goalIrqOn || r.1 }

/-- The critical section of `vmw_fence_obj_add_action`. The call of
    `vmw_fences_update` that may follow it is a step of its own. -/
def vmwFenceObjAddAction (s : FenceMan) (id : ℕ) (a : FenceAction) : Option FenceMan :=
  if id ∈ s.signaled then some (vmwFencesPerformActions (countAction s a) [a])
  else (s.fenceList.find? fun f => f.id = id).map fun f => attachAndCheck s f a

/-- One round of `vmw_fence_fifo_down` whose wait for the last fence failed. -/
def vmwFenceFifoDownExpire (s : FenceMan) : Option FenceMan :=
  match s.fenceList.getLast? with
  | none => none
  | some f => some (signalFence s f s.fenceList.dropLast)

inductive Act where
  | sendFence (who : ℕ)
  | sendFenceFail (who : ℕ) (idle : Bool)
  | createFail (who : ℕ)
  | objInit (who id : ℕ)
  | addAction (id : ℕ) (a : FenceAction)
  | update (k : ℕ) (ks : List ℕ)
  | device (k : ℕ)
  | destroy (id : ℕ)
  | fifoDown
  | fifoDownExpire
  | fifoUp
  deriving DecidableEq, Repr

/-- A fence still carrying actions is referenced by them and not destroyed; an
    object's address is not reused while it is listed or remembered. -/
def step (s : FenceMan) : Act → Option FenceMan
  | .sendFence who =>
    if (s.inflight.lookup who).isSome then none else some (vmwFifoSendFence s who)
  | .sendFenceFail who idle =>
    if (s.inflight.lookup who).isSome then none else some (vmwFifoSendFenceFail s who idle)
  | .createFail who => some (forget who s)
  | .objInit who id =>
    match s.inflight.lookup who with
    | none => none
    | some q =>
      if id ∈ s.fenceList.map FenceObj.id ∨ id ∈ s.signaled then none
      else some (forget who (vmwFenceObjInit s id q))
  | .addAction id a => vmwFenceObjAddAction s id a
  | .update k ks => some (vmwFencesUpdate k ks s).2
  | .device k => some (deviceRun k s)
  | .destroy id =>
    if ∃ f ∈ s.fenceList, f.id = id ∧ f.seqPassedActions ≠ [] then none
    else
      some
        { s with
          fenceList := s.fenceList.filter fun f => f.id ≠ id
          numFenceObjects := s.numFenceObjects - 1 }
  | .fifoDown => some { s with fifoDown := true }
  | .fifoDownExpire => if s.fifoDown then vmwFenceFifoDownExpire s else none
  | .fifoUp => some { s with fifoDown := false }

inductive Took (s : FenceMan) : Act → FenceMan → Prop where
  | sendFence {who : ℕ} (hfree : s.inflight.lookup who = none) :
    Took s (.sendFence who) (vmwFifoSendFence s who)
  | sendFenceFail {who : ℕ} {idle : Bool} (hfree : s.inflight.lookup who = none) :
    Took s (.sendFenceFail who idle) (vmwFifoSendFenceFail s who idle)
  | createFail {who : ℕ} : Took s (.createFail who) (forget who s)
  | objInit {who id q : ℕ} (hq : s.inflight.lookup who = some q)
    (hlisted : id ∉ s.fenceList.map FenceObj.id) (hsignaled : id ∉ s.signaled) :
    Took s (.objInit who id) (forget who (vmwFenceObjInit s id q))
  | addAction {id : ℕ} {a : FenceAction} {t : FenceMan}
    (h : vmwFenceObjAddAction s id a = some t) : Took s (.addAction id a) t
  | update {k : ℕ} {ks : List ℕ} : Took s (.update k ks) (vmwFencesUpdate k ks s).2
  | device {k : ℕ} : Took s (.device k) (deviceRun k s)
  | destroy {id : ℕ} (hbare : ∀ f ∈ s.fenceList, f.id = id → f.seqPassedActions = []) :
    Took s (.destroy id)
      { s with
        fenceList := s.fenceList.filter fun f => f.id ≠ id
        numFenceObjects := s.numFenceObjects - 1 }
  | fifoDown : Took s .fifoDown { s with fifoDown := true }
  | fifoDownExpire {f : FenceObj} (hdown : s.fifoDown = true)
    (hlast : s.fenceList.getLast? = some f) :
    Took s .fifoDownExpire (signalFence s f s.fenceList.dropLast)
  | fifoUp : Took s .fifoUp { s with fifoDown := false }

theorem step_took {s t : FenceMan} {a : Act} (h : step s a = some t) : Took s a t := by
  cases a with
  | sendFence who =>
    simp only [step] at h
    split_ifs at h with hfree
    obtain rfl := Option.some.inj h
    exact .sendFence (Option.not_isSome_iff_eq_none.1 hfree)
  | sendFenceFail who idle =>
    simp only [step] at h
    split_ifs at h with hfree
    obtain rfl := Option.some.inj h
    exact .sendFenceFail (Option.not_isSome_iff_eq_none.1 hfree)
  | createFail who =>
    obtain rfl := Option.some.inj h
    exact .createFail
  | objInit who id =>
    simp only [step] at h
    split at h
    · cases h
    · next q hq =>
      split_ifs at h with hid
      obtain rfl := Option.some.inj h
      push Not at hid
      exact .objInit hq hid.1 hid.2
  | addAction id a => exact .addAction h
  | update k ks =>
    obtain rfl := Option.some.inj h
    exact .update
  | device k =>
    obtain rfl := Option.some.inj h
    exact .device
  | destroy id =>
    simp only [step] at h
    split_ifs at h with hcarries
    obtain rfl := Option.some.inj h
    push Not at hcarries
    exact .destroy hcarries
  | fifoDown =>
    obtain rfl := Option.some.inj h
    exact .fifoDown
  | fifoDownExpire =>
    simp only [step, vmwFenceFifoDownExpire] at h
    split_ifs at h with hdown
    split at h
    · cases h
    · next f hlast =>
      obtain rfl := Option.some.inj h
      exact .fifoDownExpire hdown hlast
  | fifoUp =>
    obtain rfl := Option.some.inj h
    exact .fifoUp

section frame
variable (s : FenceMan) (actions : List FenceAction)

theorem vmwFencesPerformActions_eq : ∃ pending,
    vmwFencesPerformActions s actions =
      { s with
        pendingActions := pending
        seqPassedRun := s.seqPassedRun ++ actions.map FenceAction.id
        cleanupList := s.cleanupList ++ actions } := by
  induction actions generalizing s with
  | nil => exact ⟨s.pendingActions, by simp [vmwFencesPerformActions]⟩
  | cons a actions ih =>
    obtain ⟨pending, h⟩ := ih (performAction s a)
    exact ⟨pending, by
      change vmwFencesPerformActions (performAction s a) actions = _
      rw [h]
      simp [performAction]⟩

@[simp] theorem performActions_fenceList :
    (vmwFencesPerformActions s actions).fenceList = s.fenceList := by
  obtain ⟨_, h⟩ := vmwFencesPerformActions_eq s actions
  rw [h]

@[simp] theorem performActions_signaled :
    (vmwFencesPerformActions s actions).signaled = s.signaled := by
  obtain ⟨_, h⟩ := vmwFencesPerformActions_eq s actions
  rw [h]

@[simp] theorem performActions_goal :
    (vmwFencesPerformActions s actions).seqnoValid = s.seqnoValid ∧
      (vmwFencesPerformActions s actions).fenceGoal = s.fenceGoal := by
  obtain ⟨_, h⟩ := vmwFencesPerformActions_eq s actions
  rw [h]
  exact ⟨rfl, rfl⟩

@[simp] theorem performActions_device :
    (vmwFencesPerformActions s actions).fence = s.fence ∧
      (vmwFencesPerformActions s actions).markers = s.markers ∧
      (vmwFencesPerformActions s actions).markerSeq = s.markerSeq ∧
      (vmwFencesPerformActions s actions).inflight = s.inflight := by
  obtain ⟨_, h⟩ := vmwFencesPerformActions_eq s actions
  rw [h]
  exact ⟨rfl, rfl, rfl, rfl⟩

end frame

theorem scanFences_lists (seqno : ℕ) (l : List FenceObj) (s : FenceMan) (hl : s.fenceList = l) :
    (scanFences seqno l s).fenceList = l.dropWhile (passed seqno) ∧
      (scanFences seqno l s).signaled =
        s.signaled ++ (l.takeWhile (passed seqno)).map FenceObj.id := by
  induction l generalizing s with
  | nil => simp [scanFences, hl]
  | cons f rest ih =>
    cases hf : passed seqno f with
    | false => simp [scanFences, hf, hl]
    | true =>
      obtain ⟨hlist, hsig⟩ := ih (signalFence s f rest) (by simp [signalFence])
      simp only [scanFences, hf, if_true, List.dropWhile_cons, List.takeWhile_cons]
      refine ⟨hlist, hsig.trans ?_⟩
      simp [signalFence]

theorem scanFences_frame (seqno : ℕ) (l : List FenceObj) (s : FenceMan) :
    (scanFences seqno l s).seqnoValid = s.seqnoValid ∧
      (scanFences seqno l s).fenceGoal = s.fenceGoal ∧
      (scanFences seqno l s).fence = s.fence ∧ (scanFences seqno l s).markers = s.markers ∧
      (scanFences seqno l s).markerSeq = s.markerSeq ∧
      (scanFences seqno l s).inflight = s.inflight := by
  induction l generalizing s with
  | nil => simp [scanFences]
  | cons f rest ih =>
    unfold scanFences
    split
    · have h := ih (signalFence s f rest)
      simpa [signalFence] using h
    · simp

theorem vmwFenceGoalNewLocked_frame (s : FenceMan) (seqno : ℕ) :
    (vmwFenceGoalNewLocked s seqno).2.fenceList = s.fenceList ∧
      (vmwFenceGoalNewLocked s seqno).2.signaled = s.signaled ∧
      (vmwFenceGoalNewLocked s seqno).2.fence = s.fence ∧
      (vmwFenceGoalNewLocked s seqno).2.markers = s.markers ∧
      (vmwFenceGoalNewLocked s seqno).2.markerSeq = s.markerSeq ∧
      (vmwFenceGoalNewLocked s seqno).2.inflight = s.inflight := by
  unfold vmwFenceGoalNewLocked
  split_ifs
  · simp
  · simp
  · split <;> simp

theorem vmwFenceGoalCheckLocked_frame (s : FenceMan) (f : FenceObj) :
    (vmwFenceGoalCheckLocked s f).2.fenceList = s.fenceList ∧
      (vmwFenceGoalCheckLocked s f).2.fence = s.fence ∧
      (vmwFenceGoalCheckLocked s f).2.markers = s.markers ∧
      (vmwFenceGoalCheckLocked s f).2.markerSeq = s.markerSeq ∧
      (vmwFenceGoalCheckLocked s f).2.inflight = s.inflight := by
  unfold vmwFenceGoalCheckLocked
  split_ifs <;> simp

theorem attach_frame (id : ℕ) (a : FenceAction) (f : FenceObj) :
    (attach id a f).id = f.id ∧ (attach id a f).seqno = f.seqno := by
  unfold attach
  split_ifs <;> exact ⟨rfl, rfl⟩

theorem attach_other {id : ℕ} (a : FenceAction) {f : FenceObj} (h : f.id ≠ id) :
    attach id a f = f := by
  simp [attach, h]

theorem vmwFenceObjAddAction_cases {s t : FenceMan} {id : ℕ} {a : FenceAction}
    (h : vmwFenceObjAddAction s id a = some t) :
    (id ∈ s.signaled ∧ t = vmwFencesPerformActions (countAction s a) [a]) ∨
    (id ∉ s.signaled ∧ ∃ f ∈ s.fenceList, f.id = id ∧ t = attachAndCheck s f a) := by
  unfold vmwFenceObjAddAction at h
  split_ifs at h with hs
  · exact .inl ⟨hs, (Option.some.inj h).symm⟩
  · obtain ⟨f, hf, rfl⟩ := Option.map_eq_some_iff.1 h
    exact .inr ⟨hs, f, List.mem_of_find?_eq_some hf, by simpa using List.find?_some hf, rfl⟩

theorem deviceRun_eq (k : ℕ) (s : FenceMan) : ∃ seqno markers,
    deviceRun k s = { s with fence := seqno, markers := markers } ∧
      ∀ x ∈ seqno :: markers, x ∈ s.fence :: s.markers := by
  induction k generalizing s with
  | zero => exact ⟨s.fence, s.markers, rfl, fun _ h => h⟩
  | succ k ih =>
    cases hm : s.markers with
    | nil => exact ⟨s.fence, [], by simp only [deviceRun, hm]; rw [← hm], by simp⟩
    | cons m ms =>
      obtain ⟨seqno, markers, h, hsub⟩ := ih { s with fence := m, markers := ms }
      refine ⟨seqno, markers, by simp only [deviceRun, hm, h], ?_⟩
      intro x hx
      exact List.mem_cons_of_mem _ (hsub x hx)

end Vmwgfx.FenceMachine

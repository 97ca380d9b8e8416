import Vmwgfx.FenceActions
import Vmwgfx.FenceLedger

set_option autoImplicit false

/-!
# Performing and cleaning up actions

Every action is performed once and cleaned up at most once. That it is cleaned up at all is up to
whoever appends it to `cleanup_list`: `__vmw_fences_update` schedules the work,
`vmw_fence_obj_add_action` on a signaled fence does not, and `vmw_fence_manager_takedown` drops
what is scheduled.
-/
namespace Vmwgfx.FenceCleanup
open FenceMachine FenceLedger FenceActions LabelledRuns

/-- The actions on the private list of the work function. -/
def privateList (s : ActionMan) : List FenceAction := s.worker.getD []

/-- The phases of `vmw_fence_fifo_down` outside the branch for a failed wait. -/
def Down.regular : Down → Prop
  | .idle | .looking | .waiting _ => True
  | _ => False

/-- `vmw_fence_fifo_down` waits without end, so it never gets to the branch without the lock. -/
structure Accounted (s : ActionMan) : Prop where
  ledger : Ledger s.man s.added [] (privateList s ++ s.cleaned)
  distinct : (s.added.map FenceAction.id).Nodup
  regular : Down.regular s.down

theorem start_accounted (lastReadSeqno goal : ℕ) (capFence : Bool) :
    Accounted (FenceActions.start lastReadSeqno goal capFence) :=
  ⟨start_ledger lastReadSeqno goal capFence, List.nodup_nil, trivial⟩

theorem vmwFenceWaitTimeout_pos (hz : ℕ+) : 0 < vmwFenceWaitTimeout hz := by
  have := hz.pos
  unfold vmwFenceWaitTimeout
  omega

section steps
variable {hz : ℕ+} {s t : ActionMan}

theorem others_eq {a : FenceMachine.Act} (h : FenceActions.others s a = some t) :
    (∀ id x, a ≠ .addAction id x) ∧ a ≠ .fifoDownExpire ∧
      ∃ m, FenceMachine.step s.man a = some m ∧ t = { s with man := m } := by
  unfold FenceActions.others at h
  split at h
  · cases h
  · cases h
  · cases h
  · split_ifs at h
    obtain ⟨m, hm, rfl⟩ := Option.map_eq_some_iff.1 h
    exact ⟨nofun, nofun, m, hm, rfl⟩
  · split_ifs at h
    obtain ⟨m, hm, rfl⟩ := Option.map_eq_some_iff.1 h
    exact ⟨nofun, nofun, m, hm, rfl⟩
  · next hadd _ hexpire _ _ =>
    obtain ⟨m, hm, rfl⟩ := Option.map_eq_some_iff.1 h
    exact ⟨hadd, hexpire, m, hm, rfl⟩

theorem enableSignaling_eq {id : ℕ} (h : enableSignaling s id = some t) :
    ∃ signaled, t = { s with man := { s.man with signaled := signaled } } := by
  obtain ⟨f, _, rfl⟩ := Option.map_eq_some_iff.1 h
  split_ifs
  · exact ⟨_, rfl⟩
  · exact ⟨s.man.signaled, rfl⟩

theorem addAction_eq (hreg : Down.regular s.down) {id : ℕ} {a : FenceAction}
    (h : FenceActions.vmwFenceObjAddAction s id a = some t) :
    ∃ m, FenceMachine.vmwFenceObjAddAction s.man id a = some m ∧
      t = { s with man := m, added := s.added ++ [a] } := by
  unfold FenceActions.vmwFenceObjAddAction at h
  split at h
  · next hdown =>
    rw [hdown] at hreg
    exact hreg.elim
  · obtain ⟨m, hm, rfl⟩ := Option.map_eq_some_iff.1 h
    exact ⟨m, hm, rfl⟩

theorem downWait_eq {already : Bool} {rounds : List WaitRound}
    (h : downWait hz s already rounds = some t) : t = { s with down := .looking } := by
  unfold downWait at h
  split at h
  · split at h
    · cases h
    · next ret hret =>
      rw [vmwFenceObjWait_uninterruptible (vmwFenceWaitTimeout_pos hz) hret, if_pos rfl] at h
      split_ifs at h
      exact (Option.some.inj h).symm
  · cases h

theorem downStep_eq (hreg : Down.regular s.down) (h : downStep s = some t) :
    ∃ down fifoDown, Down.regular down ∧
      t = { s with man := { s.man with fifoDown := fifoDown }, down := down } := by
  obtain ⟨m, added, worker, cleaned, down, takenDown, bugOn⟩ := s
  cases down with
  | idle =>
    cases h
    exact ⟨.looking, true, trivial, rfl⟩
  | looking =>
    unfold downStep at h
    simp only at h
    split at h
    · cases h
      exact ⟨.idle, m.fifoDown, trivial, rfl⟩
    · next f _ =>
      cases h
      exact ⟨.waiting f.id, m.fifoDown, trivial, rfl⟩
  | waiting => cases h
  | _ => exact hreg.elim

theorem workStart_eq (h : workStart s = some t) :
    s.worker = none ∧ s.man.workScheduled = true ∧
      t = { s with man := { s.man with workScheduled := false }, worker := some [] } := by
  unfold workStart at h
  split_ifs at h with hidle
  exact ⟨hidle.1, hidle.2, (Option.some.inj h).symm⟩

theorem takedown_eq (h : vmwFenceManagerTakedown s = some t) :
    s.worker = none ∧
      t = { s with
        man := { s.man with workScheduled := false }
        takenDown := true
        bugOn := !(s.man.fenceList.isEmpty && s.man.cleanupList.isEmpty) } := by
  unfold vmwFenceManagerTakedown at h
  split_ifs at h with hidle
  exact ⟨hidle.1, (Option.some.inj h).symm⟩

theorem Accounted.work (h : Accounted s) (hstep : vmwFenceWorkFunc s = some t) : Accounted t := by
  have hledger := h.ledger
  unfold vmwFenceWorkFunc at hstep
  split at hstep
  · cases hstep
  · next a list hworker =>
    cases hstep
    unfold privateList at hledger
    rw [hworker] at hledger
    refine ⟨hledger.moveBehind ?_, h.distinct, h.regular⟩
    change (a :: (list ++ s.cleaned)).Perm (list ++ (s.cleaned ++ [a]))
    rw [← List.append_assoc]
    exact (List.perm_append_singleton a _).symm
  · next hworker =>
    cases hstep
    unfold privateList at hledger
    rw [hworker] at hledger
    have htaken : privateList { s with
        worker := if s.man.cleanupList = [] then none else some s.man.cleanupList } =
        s.man.cleanupList := by
      unfold privateList
      split_ifs with hempty
      · exact hempty.symm
      · rfl
    refine ⟨?_, h.distinct, h.regular⟩
    change Ledger _ s.added [] (privateList { s with
      worker := if s.man.cleanupList = [] then none else some s.man.cleanupList } ++ s.cleaned)
    rw [htaken]
    exact hledger.takeCleanup.congr rfl rfl rfl rfl

theorem Accounted.step (h : Accounted s) {a : FenceActions.Act}
    (hstep : FenceActions.step hz s a = some t) : Accounted t := by
  unfold FenceActions.step at hstep
  split_ifs at hstep
  cases a with
  | others a =>
    obtain ⟨hadd, hexpire, m, hm, rfl⟩ := others_eq hstep
    exact ⟨h.ledger.others hadd hexpire hm, h.distinct, h.regular⟩
  | enableSignaling id =>
    obtain ⟨_, rfl⟩ := enableSignaling_eq hstep
    exact ⟨h.ledger.congr rfl rfl rfl rfl, h.distinct, h.regular⟩
  | addAction id a =>
    simp only at hstep
    split_ifs at hstep with hnew
    obtain ⟨m, hm, rfl⟩ := addAction_eq h.regular hstep
    refine ⟨h.ledger.addAction hm, ?_, h.regular⟩
    change ((s.added ++ [a]).map FenceAction.id).Nodup
    rw [List.map_append]
    exact List.nodup_append'.2 ⟨h.distinct, List.nodup_singleton _,
      List.disjoint_singleton.2 hnew⟩
  | downWait already rounds =>
    rw [downWait_eq hstep]
    exact ⟨h.ledger, h.distinct, trivial⟩
  | downStep =>
    obtain ⟨_, _, hdown, rfl⟩ := downStep_eq h.regular hstep
    exact ⟨h.ledger.congr rfl rfl rfl rfl, h.distinct, hdown⟩
  | workStart =>
    obtain ⟨hidle, _, rfl⟩ := workStart_eq hstep
    have hledger := h.ledger
    unfold privateList at hledger
    rw [hidle] at hledger
    exact ⟨hledger.congr rfl rfl rfl rfl, h.distinct, h.regular⟩
  | work => exact h.work hstep
  | takedown =>
    obtain ⟨_, rfl⟩ := takedown_eq hstep
    exact ⟨h.ledger.congr rfl rfl rfl rfl, h.distinct, h.regular⟩

theorem runs_accounted {admits : ActionMan → FenceActions.Act → Prop} {as : List FenceActions.Act}
    (run : Runs (FenceActions.step hz) admits s as t) (h : Accounted s) : Accounted t :=
  run.invariant Accounted h fun _ _ _ h _ hstep => h.step hstep

end steps

section once
variable {s : ActionMan}

def performed (s : ActionMan) : List FenceAction :=
  s.man.cleanupList ++ (privateList s ++ s.cleaned)

theorem Accounted.places (h : Accounted s) :
    s.added.Perm (attachedTo s.man.fenceList ++ performed s) := h.ledger.places

theorem Accounted.nodup (h : Accounted s) :
    ((attachedTo s.man.fenceList ++ performed s).map FenceAction.id).Nodup :=
  (h.places.map FenceAction.id).nodup_iff.1 h.distinct

theorem Accounted.count_places (h : Accounted s) {a : FenceAction} (ha : a ∈ s.added) :
    (attachedTo s.man.fenceList).count a + s.man.cleanupList.count a + (privateList s).count a +
      s.cleaned.count a = 1 := by
  have hone := List.count_eq_one_of_mem (List.Nodup.of_map _ h.distinct) ha
  rw [h.places.count_eq] at hone
  unfold performed at hone
  simp only [List.count_append] at hone
  omega

theorem Accounted.count_ran (h : Accounted s) {a : FenceAction} (ha : a ∈ s.added) :
    s.man.seqPassedRun.count a.id = if a ∈ attachedTo s.man.fenceList then 0 else 1 := by
  have hnodup := h.nodup
  rw [List.map_append, List.nodup_append'] at hnodup
  obtain ⟨_, hran, hdisj⟩ := hnodup
  rw [h.ledger.ran.count_eq]
  split_ifs with hattached
  · exact List.count_eq_zero_of_not_mem (hdisj (List.mem_map_of_mem hattached))
  · have hmem := (List.mem_append.1 (h.places.mem_iff.1 ha)).resolve_left hattached
    exact List.count_eq_one_of_mem hran (List.mem_map_of_mem hmem)

theorem Accounted.mem_performed (h : Accounted s) {a : FenceAction} (ha : a ∈ s.added)
    (hran : a.id ∈ s.man.seqPassedRun) : a ∈ performed s := by
  obtain ⟨b, hb, hid⟩ := List.mem_map.1 (h.ledger.ran.mem_iff.1 hran)
  have hadded := h.places.mem_iff.2 (List.mem_append_right _ hb)
  exact List.inj_on_of_nodup_map h.distinct hadded ha hid ▸ hb

structure PerformedOnce (s : ActionMan) : Prop where
  place : ∀ a ∈ s.added,
    (attachedTo s.man.fenceList).count a + s.man.cleanupList.count a + (privateList s).count a +
      s.cleaned.count a = 1
  ran : ∀ a ∈ s.added,
    s.man.seqPassedRun.count a.id = if a ∈ attachedTo s.man.fenceList then 0 else 1
  cleanedAfter : ∀ a ∈ s.added, s.cleaned.count a ≤ s.man.seqPassedRun.count a.id
  onlyAdded : ∀ a ∈ attachedTo s.man.fenceList ++ performed s, a ∈ s.added
  ranAdded : ∀ i ∈ s.man.seqPassedRun, i ∈ s.added.map FenceAction.id
  pending : ∀ t,
    s.man.pendingActions t = (attachedTo s.man.fenceList).countP (ofType t) % 2 ^ 32

/-- In any interleaving an action is in one place, its `seq_passed` has run once unless a fence
    still carries it, and its `cleanup` runs later and once at most. -/
theorem runs_perform_once {hz : ℕ+} {lastReadSeqno goal : ℕ} {capFence : Bool}
    {as : List FenceActions.Act}
    (run : Runs (FenceActions.step hz) anyLabel
      (FenceActions.start lastReadSeqno goal capFence) as s) : PerformedOnce s := by
  have h := runs_accounted run (start_accounted lastReadSeqno goal capFence)
  refine ⟨fun a ha => h.count_places ha, fun a ha => h.count_ran ha, ?_,
    fun a ha => h.places.mem_iff.2 ha, ?_, h.ledger.pending⟩
  · intro a ha
    have hone := h.count_places ha
    rw [h.count_ran ha]
    split_ifs with hattached
    · have := List.count_pos_iff.2 hattached
      omega
    · omega
  · intro i hi
    obtain ⟨b, hb, rfl⟩ := List.mem_map.1 (h.ledger.ran.mem_iff.1 hi)
    exact List.mem_map_of_mem (h.places.mem_iff.2 (List.mem_append_right _ hb))

/-- Of two fences with an action each the first passes, and the work function cleans up. -/
theorem first_action_cleaned :
    ∃ s, Runs (FenceActions.step 100) anyLabel (FenceActions.start 0 0 true)
        [.others (.sendFence 0), .others (.objInit 0 7), .addAction 7 ⟨1, .event⟩,
          .others (.sendFence 0), .others (.objInit 0 8), .addAction 8 ⟨2, .event⟩,
          .others (.update 1 []), .workStart, .work, .work] s ∧
      PerformedOnce s ∧ s.cleaned = [⟨1, .event⟩] ∧
      attachedTo s.man.fenceList = [⟨2, .event⟩] := by
  have run : Runs (FenceActions.step 100) anyLabel (FenceActions.start 0 0 true)
      [.others (.sendFence 0), .others (.objInit 0 7), .addAction 7 ⟨1, .event⟩,
        .others (.sendFence 0), .others (.objInit 0 8), .addAction 8 ⟨2, .event⟩,
        .others (.update 1 []), .workStart, .work, .work] _ := runs_of_exec rfl
  exact ⟨_, run, runs_perform_once run, rfl, rfl⟩

end once

section eventually
variable {hz : ℕ+} {s t : ActionMan}

def WorkerOnly (_ : ActionMan) (a : FenceActions.Act) : Prop := a = .workStart ∨ a = .work

/-- What is on `cleanup_list` is picked up: the work is scheduled, or it runs and has another
    pass to come. When it has run, everything performed is cleaned up. With all fences gone
    the assertion of the takedown holds. -/
structure CleansUp (hz : ℕ+) (s : ActionMan) : Prop where
  served : s.man.cleanupList ≠ [] → s.man.workScheduled = true ∨ s.worker ≠ none
  eventually : ∃ as t, Runs (FenceActions.step hz) WorkerOnly s as t ∧
    ∀ a ∈ s.added, a.id ∈ s.man.seqPassedRun → a ∈ t.cleaned
  takedown : s.man.fenceList = [] → s.bugOn = false

/-- An action goes to a signaled fence only while the work is scheduled or runs, and scheduled
    work is not dropped by the takedown while there is something to clean up. -/
def Admits (s : ActionMan) : FenceActions.Act → Prop
  | .addAction id _ => id ∈ s.man.signaled → s.man.workScheduled = true ∨ s.worker ≠ none
  | .takedown => s.man.workScheduled = true → s.man.cleanupList = []
  | _ => True

structure Attended (s : ActionMan) : Prop where
  accounted : Accounted s
  served : s.man.cleanupList ≠ [] → s.man.workScheduled = true ∨ s.worker ≠ none
  live : s.takenDown = false → s.bugOn = false
  ended : s.takenDown = true →
    s.man.cleanupList = [] ∧ s.worker = none ∧ (s.man.fenceList = [] → s.bugOn = false)

/-- Sections of the fence manager that leave `cleanup_list` and the work alone, or schedule it. -/
def Schedules (m m' : FenceMan) : Prop :=
  (m'.cleanupList = m.cleanupList ∧ m'.workScheduled = m.workScheduled) ∨
    (m'.cleanupList ≠ [] → m'.workScheduled = true)

theorem update_schedules (m : FenceMan) (k : ℕ) (ks : List ℕ) :
    Schedules m (vmwFencesUpdate k ks m).2 := by
  refine .inr fun hne => ?_
  unfold vmwFencesUpdate at hne ⊢
  simp only [Bool.or_eq_true, Bool.not_eq_true', List.isEmpty_eq_false_iff]
  exact .inr hne

theorem others_schedules {a : FenceMachine.Act} {m m' : FenceMan}
    (hadd : ∀ id x, a ≠ .addAction id x) (hexpire : a ≠ .fifoDownExpire)
    (hstep : FenceMachine.step m a = some m') : Schedules m m' := by
  cases step_took hstep with
  | sendFence => exact .inl ⟨rfl, rfl⟩
  | sendFenceFail => exact .inl ⟨rfl, rfl⟩
  | createFail => exact .inl ⟨rfl, rfl⟩
  | objInit =>
    unfold vmwFenceObjInit
    split_ifs
    · exact .inl ⟨rfl, rfl⟩
    · exact .inl ⟨rfl, rfl⟩
  | @addAction id x => exact absurd rfl (hadd id x)
  | update => exact update_schedules m _ _
  | @device k =>
    obtain ⟨_, _, heq, _⟩ := deviceRun_eq k m
    rw [heq]
    exact .inl ⟨rfl, rfl⟩
  | destroy => exact .inl ⟨rfl, rfl⟩
  | fifoDown => exact .inl ⟨rfl, rfl⟩
  | fifoDownExpire => exact absurd rfl hexpire
  | fifoUp => exact .inl ⟨rfl, rfl⟩

theorem addAction_schedules {m m' : FenceMan} {id : ℕ} {a : FenceAction}
    (hstep : FenceMachine.vmwFenceObjAddAction m id a = some m') :
    m'.workScheduled = m.workScheduled ∧
      (m'.cleanupList = m.cleanupList ∨ id ∈ m.signaled) := by
  obtain ⟨hsignaled, rfl⟩ | ⟨_, f, _, rfl, rfl⟩ := vmwFenceObjAddAction_cases hstep
  · obtain ⟨_, heq⟩ := vmwFencesPerformActions_eq (countAction m a) [a]
    rw [heq]
    exact ⟨rfl, .inr hsignaled⟩
  · unfold attachAndCheck vmwFenceGoalCheckLocked
    split_ifs
    · exact ⟨rfl, .inl rfl⟩
    · exact ⟨rfl, .inl rfl⟩
    · exact ⟨rfl, .inl rfl⟩

theorem Attended.running (hacc : Accounted t)
    (hserved : t.man.cleanupList ≠ [] → t.man.workScheduled = true ∨ t.worker ≠ none)
    (hrunning : t.takenDown = false) (hbug : t.bugOn = false) : Attended t := by
  refine ⟨hacc, hserved, fun _ => hbug, fun hended => ?_⟩
  rw [hrunning] at hended
  cases hended

theorem Attended.man {m : FenceMan} (h : Attended s) (hlive : s.takenDown = false)
    (hm : Schedules s.man m) (hacc : Accounted { s with man := m }) :
    Attended { s with man := m } := by
  refine .running hacc (fun hne => ?_) hlive (h.live hlive)
  obtain ⟨hclean, hwork⟩ | hsched := hm
  · have := h.served (hclean ▸ hne)
    rwa [← hwork] at this
  · exact .inl (hsched hne)

theorem Attended.work (h : Attended s) (hlive : s.takenDown = false) (hacc : Accounted t)
    (hstep : vmwFenceWorkFunc s = some t) : Attended t := by
  unfold vmwFenceWorkFunc at hstep
  split at hstep
  · cases hstep
  · cases hstep
    exact .running hacc (fun _ => .inr nofun) hlive (h.live hlive)
  · cases hstep
    exact .running hacc (fun hne => absurd rfl hne) hlive (h.live hlive)

theorem Attended.step (h : Attended s) {a : FenceActions.Act} (hok : Admits s a)
    (hstep : FenceActions.step hz s a = some t) : Attended t := by
  have hacc := h.accounted.step hstep
  unfold FenceActions.step at hstep
  split_ifs at hstep with hended
  have hlive : s.takenDown = false := Bool.eq_false_iff.2 hended
  cases a with
  | others a =>
    obtain ⟨hadd, hexpire, m, hm, rfl⟩ := others_eq hstep
    exact h.man hlive (others_schedules hadd hexpire hm) hacc
  | enableSignaling id =>
    obtain ⟨_, rfl⟩ := enableSignaling_eq hstep
    exact h.man hlive (.inl ⟨rfl, rfl⟩) hacc
  | addAction id a =>
    simp only at hstep
    split_ifs at hstep
    obtain ⟨m, hm, rfl⟩ := addAction_eq h.accounted.regular hstep
    refine .running hacc (fun hne => ?_) hlive (h.live hlive)
    obtain ⟨hwork, hclean | hsignaled⟩ := addAction_schedules hm
    · have := h.served (hclean ▸ hne)
      rwa [← hwork] at this
    · have := hok hsignaled
      rwa [← hwork] at this
  | downWait already rounds =>
    rw [downWait_eq hstep] at hacc ⊢
    exact .running hacc h.served hlive (h.live hlive)
  | downStep =>
    obtain ⟨_, _, _, rfl⟩ := downStep_eq h.accounted.regular hstep
    exact .running hacc h.served hlive (h.live hlive)
  | workStart =>
    obtain ⟨_, _, rfl⟩ := workStart_eq hstep
    exact .running hacc (fun _ => .inr nofun) hlive (h.live hlive)
  | work => exact h.work hlive hacc hstep
  | takedown =>
    obtain ⟨hidle, rfl⟩ := takedown_eq hstep
    have hempty : s.man.cleanupList = [] := by
      by_contra hne
      exact hne (hok ((h.served hne).resolve_right (not_not_intro hidle)))
    refine ⟨hacc, fun hne => absurd hempty hne, nofun, fun _ => ⟨hempty, hidle, fun hgone => ?_⟩⟩
    change (!(s.man.fenceList.isEmpty && s.man.cleanupList.isEmpty)) = false
    change s.man.fenceList = [] at hgone
    rw [hgone, hempty]
    rfl

theorem private_cleaned {list : List FenceAction} (hlive : s.takenDown = false)
    (hworker : s.worker = some list) :
    ∃ as t, Runs (FenceActions.step hz) WorkerOnly s as t ∧ t.man = s.man ∧
      t.takenDown = false ∧ t.worker = some [] ∧ t.cleaned = s.cleaned ++ list := by
  induction list generalizing s with
  | nil => exact ⟨[], s, .refl s, rfl, hlive, hworker, (List.append_nil _).symm⟩
  | cons a list ih =>
    have hwork : FenceActions.step hz s .work =
        some { s with worker := some list, cleaned := s.cleaned ++ [a] } := by
      unfold FenceActions.step vmwFenceWorkFunc
      rw [hlive, hworker]
      rfl
    obtain ⟨as, t, run, hman, hlive', hdone, hcleaned⟩ :=
      @ih { s with worker := some list, cleaned := s.cleaned ++ [a] } hlive rfl
    refine ⟨.work :: as, t, .next (.inr rfl) hwork run, hman, hlive', hdone, ?_⟩
    rw [hcleaned, List.append_assoc]
    rfl

theorem pass_takes (hlive : s.takenDown = false) (hworker : s.worker = some []) :
    ∃ t, FenceActions.step hz s .work = some t ∧ t.takenDown = false ∧ t.cleaned = s.cleaned ∧
      (s.man.cleanupList = [] ∨ t.worker = some s.man.cleanupList) := by
  unfold FenceActions.step vmwFenceWorkFunc
  rw [hlive, hworker]
  refine ⟨_, rfl, rfl, rfl, ?_⟩
  by_cases hempty : s.man.cleanupList = []
  · exact .inl hempty
  · exact .inr (if_neg hempty)

theorem worker_cleans (hlive : s.takenDown = false) {list : List FenceAction}
    (hworker : s.worker = some list) :
    ∃ as t, Runs (FenceActions.step hz) WorkerOnly s as t ∧
      t.cleaned = s.cleaned ++ (list ++ s.man.cleanupList) := by
  obtain ⟨as, u, run, hman, hlive', hdone, hcleaned⟩ := @private_cleaned hz s list hlive hworker
  obtain ⟨v, hpass, hlive'', hsame, hempty | htaken⟩ := @pass_takes hz u hlive' hdone
  · refine ⟨_, v, run.trans (.next (.inr rfl) hpass (.refl v)), ?_⟩
    rw [hman] at hempty
    rw [hsame, hcleaned, hempty, List.append_nil]
  · obtain ⟨bs, t, hrest, _, _, _, hall⟩ := @private_cleaned hz v _ hlive'' htaken
    refine ⟨_, t, (run.trans (.next (.inr rfl) hpass (.refl v))).trans hrest, ?_⟩
    rw [hall, hsame, hcleaned, hman, List.append_assoc]

theorem start_work (hlive : s.takenDown = false) (hidle : s.worker = none)
    (hscheduled : s.man.workScheduled = true) :
    ∃ t, FenceActions.step hz s .workStart = some t ∧ t.takenDown = false ∧
      t.worker = some [] ∧ t.man.cleanupList = s.man.cleanupList ∧ t.cleaned = s.cleaned := by
  refine ⟨{ s with man := { s.man with workScheduled := false }, worker := some [] }, ?_, hlive,
    rfl, rfl, rfl⟩
  unfold FenceActions.step workStart
  rw [if_neg (Bool.eq_false_iff.1 hlive)]
  exact if_pos ⟨hidle, hscheduled⟩

theorem Attended.cleansUp (h : Attended s) :
    ∃ as t, Runs (FenceActions.step hz) WorkerOnly s as t ∧ ∀ a ∈ performed s, a ∈ t.cleaned := by
  unfold performed privateList
  cases hworker : s.worker with
  | none =>
    by_cases hempty : s.man.cleanupList = []
    · refine ⟨[], s, .refl s, fun a ha => ?_⟩
      rw [hempty] at ha
      exact ha
    · have hlive : s.takenDown = false :=
        Bool.eq_false_iff.2 fun hended => hempty (h.ended hended).1
      have hscheduled := (h.served hempty).resolve_right (not_not_intro hworker)
      obtain ⟨u, hstart, hlive', hruns, hlist, hcleaned⟩ :=
        @start_work hz s hlive hworker hscheduled
      obtain ⟨as, t, run, hall⟩ := @worker_cleans hz u hlive' _ hruns
      refine ⟨_, t, .next (.inl rfl) hstart run, fun a ha => ?_⟩
      rw [hall, hcleaned, hlist]
      rw [Option.getD_none] at ha
      simp only [List.nil_append, List.mem_append] at ha ⊢
      exact ha.symm
  | some list =>
    have hlive : s.takenDown = false := by
      refine Bool.eq_false_iff.2 fun hended => ?_
      have := (h.ended hended).2.1
      rw [hworker] at this
      cases this
    obtain ⟨as, t, run, hall⟩ := @worker_cleans hz s hlive _ hworker
    refine ⟨as, t, run, fun a ha => ?_⟩
    rw [hall]
    rw [Option.getD_some] at ha
    simp only [List.mem_append] at ha ⊢
    tauto

theorem start_attended (lastReadSeqno goal : ℕ) (capFence : Bool) :
    Attended (FenceActions.start lastReadSeqno goal capFence) :=
  .running (start_accounted lastReadSeqno goal capFence) (fun hne => absurd rfl hne) rfl rfl

/-- Runs that schedule the work for every action they perform. -/
theorem admitted_runs_clean_up {lastReadSeqno goal : ℕ} {capFence : Bool}
    {as : List FenceActions.Act}
    (run : Runs (FenceActions.step hz) Admits
      (FenceActions.start lastReadSeqno goal capFence) as s) : CleansUp hz s := by
  have h : Attended s := run.invariant Attended (start_attended lastReadSeqno goal capFence)
    fun _ _ _ h hok hstep => h.step hok hstep
  refine ⟨h.served, ?_, fun hgone => ?_⟩
  · obtain ⟨bs, t, hworker, hall⟩ := @Attended.cleansUp hz s h
    exact ⟨bs, t, hworker, fun a ha hran => hall a (h.accounted.mem_performed ha hran)⟩
  · cases hended : s.takenDown with
    | false => exact h.live hended
    | true => exact (h.ended hended).2.2 hgone

/-- The update performs the action and schedules the work; an action that comes after it finds
    the work scheduled. -/
theorem update_cleans_up :
    ∃ s, Runs (FenceActions.step 100) Admits (FenceActions.start 0 0 true)
        [.others (.sendFence 0), .others (.objInit 0 7), .addAction 7 ⟨1, .event⟩,
          .others (.update 1 []), .addAction 7 ⟨2, .event⟩] s ∧
      CleansUp 100 s ∧ s.man.cleanupList = [⟨1, .event⟩, ⟨2, .event⟩] := by
  have run : Runs (FenceActions.step 100) Admits (FenceActions.start 0 0 true)
      [.others (.sendFence 0), .others (.objInit 0 7), .addAction 7 ⟨1, .event⟩,
        .others (.update 1 []), .addAction 7 ⟨2, .event⟩] _ :=
    .next trivial rfl (.next trivial rfl (.next (fun hsig => absurd hsig List.not_mem_nil) rfl
      (.next trivial rfl (.next (fun _ => .inl rfl) rfl (.refl _)))))
  exact ⟨_, run, admitted_runs_clean_up run, rfl⟩

/-- The fence has been signaled without actions, so the work is not scheduled; the action that
    is then added to it stays on `cleanup_list`, and the takedown fails although no fence is
    left on the list. -/
theorem late_action_left :
    (¬ ∀ (hz : ℕ+) (lastReadSeqno goal : ℕ) (capFence : Bool) (as : List FenceActions.Act)
      (s : ActionMan), Runs (FenceActions.step hz) anyLabel
        (FenceActions.start lastReadSeqno goal capFence) as s → CleansUp hz s) ∧
    ∃ s, Runs (FenceActions.step 100) anyLabel (FenceActions.start 0 0 true)
        [.others (.sendFence 0), .others (.objInit 0 7), .others (.update 1 []),
          .addAction 7 ⟨1, .event⟩, .takedown] s ∧
      s.man.fenceList = [] ∧ s.man.cleanupList = [⟨1, .event⟩] ∧ s.bugOn = true := by
  have late : Runs (FenceActions.step 100) anyLabel (FenceActions.start 0 0 true)
      [.others (.sendFence 0), .others (.objInit 0 7), .others (.update 1 []),
        .addAction 7 ⟨1, .event⟩] _ := runs_of_exec rfl
  refine ⟨fun h => ?_, _, late.trans (.next trivial rfl (.refl _)), rfl, rfl, rfl⟩
  obtain hscheduled | hruns := (h _ _ _ _ _ _ late).served (by decide)
  · exact absurd hscheduled (by decide)
  · exact hruns rfl

end eventually

end Vmwgfx.FenceCleanup

import Vmwgfx.FenceMachine

set_option autoImplicit false

/-!
# The fence goal

While `seqno_valid` is set, the goal register should not be later than any
unsignalled fence with actions. `vmw_fence_goal_check_locked` compares the wrong
way round: it keeps a goal that is later than the new fence and replaces one
that is earlier.
-/
namespace Vmwgfx.FenceGoal
open Word32 LabelledRuns FenceMachine

/-- The goal is no later than any listed fence with actions attached. -/
def GoalCovers (s : FenceMan) : Prop :=
  s.seqnoValid = true →
    ∀ f ∈ s.fenceList, f.seqPassedActions ≠ [] → subU32 f.seqno s.fenceGoal < 2 ^ 31

/-- The fences with actions are those of the goal, wherever they are listed. -/
structure Inv (s : FenceMan) : Prop where
  ids : (s.fenceList.map FenceObj.id).Nodup
  idle : s.seqnoValid = false → ∀ f ∈ s.fenceList, f.seqPassedActions = []
  carriers : s.seqnoValid = true →
    ∀ f ∈ s.fenceList, f.seqPassedActions ≠ [] → f.seqno = s.fenceGoal

/-- While a goal is set an action goes to the goal's fence, or to a later one that no fence
    with actions precedes. -/
def Admits (s : FenceMan) : Act → Prop
  | .addAction id _ => s.seqnoValid = true → ∀ f ∈ s.fenceList, f.id = id →
      f.seqno = s.fenceGoal ∨ (2 ^ 31 ≤ subU32 s.fenceGoal f.seqno ∧
        ∀ g ∈ s.fenceList, g.seqPassedActions ≠ [] → subU32 g.seqno f.seqno < 2 ^ 31)
  | _ => True

theorem start_inv (m g : ℕ) (cap : Bool) : Inv (start m g cap) := by
  refine ⟨List.nodup_nil, ?_, ?_⟩
  · intro _ f hf
    cases hf
  · intro hv
    cases hv

theorem Inv.sublist {s t : FenceMan} (h : Inv s) (hl : t.fenceList.Sublist s.fenceList)
    (hv : t.seqnoValid = s.seqnoValid) (hg : t.fenceGoal = s.fenceGoal) : Inv t := by
  refine ⟨h.ids.sublist (hl.map _), ?_, ?_⟩
  · intro hf f hm
    exact h.idle (hv ▸ hf) f (hl.subset hm)
  · intro hf f hm hne
    rw [hg]
    exact h.carriers (hv ▸ hf) f (hl.subset hm) hne

theorem deviceRun_inv {s : FenceMan} (h : Inv s) (k : ℕ) : Inv (deviceRun k s) := by
  obtain ⟨_, _, he, _⟩ := deviceRun_eq k s
  rw [he]
  exact h.sublist (List.Sublist.refl _) rfl rfl

theorem scanFences_inv {s : FenceMan} (h : Inv s) (seqno : ℕ) :
    Inv (scanFences seqno s.fenceList s) := by
  obtain ⟨hv, hg, _⟩ := scanFences_frame seqno s.fenceList s
  refine h.sublist ?_ hv hg
  rw [(scanFences_lists seqno s.fenceList s rfl).1]
  exact List.dropWhile_sublist _

theorem goalNew_inv {s : FenceMan} (h : Inv s) (seqno : ℕ) :
    Inv (vmwFenceGoalNewLocked s seqno).2 := by
  unfold vmwFenceGoalNewLocked
  split_ifs with hv
  · exact h
  · exact h
  · split
    · rename_i hnone
      refine ⟨h.ids, ?_, by rintro ⟨⟩⟩
      intro _ f hf
      simpa using List.find?_eq_none.1 hnone f hf
    · rename_i f hsome
      have hvalid : s.seqnoValid = true := by simpa using hv
      have hf := List.find?_some hsome
      refine ⟨h.ids, by rintro ⟨⟩, fun _ g hg hne => ?_⟩
      rw [h.carriers hvalid g hg hne]
      exact (h.carriers hvalid f (List.mem_of_find?_eq_some hsome) (by simpa using hf)).symm

theorem updatePass_inv {s : FenceMan} (h : Inv s) (seqno : ℕ) : Inv (updatePass s seqno).2 :=
  goalNew_inv (scanFences_inv h seqno) seqno

theorem rerun_inv (ks : List ℕ) {s : FenceMan} (h : Inv s) (seqno : ℕ) :
    Inv (rerun ks s seqno).2 := by
  induction ks generalizing s seqno with
  | nil => exact updatePass_inv h seqno
  | cons k ks ih =>
    have hp := updatePass_inv h seqno
    simp only [rerun]
    split_ifs
    · exact hp
    · exact deviceRun_inv hp k
    · exact ih (deviceRun_inv hp k) _

theorem update_inv {s : FenceMan} (h : Inv s) (k : ℕ) (ks : List ℕ) :
    Inv (vmwFencesUpdate k ks s).2 :=
  (rerun_inv ks (deviceRun_inv h k) _).sublist (List.Sublist.refl _) rfl rfl

theorem carriers_after {s : FenceMan} (h : Inv s) {f g : FenceObj} (a : FenceAction)
    (hf : f ∈ s.fenceList) (hg : g ∈ s.fenceList.map (attach f.id a))
    (hne : g.seqPassedActions ≠ []) :
    g.seqno = f.seqno ∨ ∃ g' ∈ s.fenceList, g'.seqno = g.seqno ∧ g'.seqPassedActions ≠ [] := by
  obtain ⟨g', hg', rfl⟩ := List.mem_map.1 hg
  by_cases hid : g'.id = f.id
  · have : g' = f := List.inj_on_of_nodup_map h.ids hg' hf hid
    exact .inl ((attach_frame _ _ _).2.trans (congrArg _ this))
  · rw [attach_other a hid] at hne ⊢
    exact .inr ⟨g', hg', rfl, hne⟩

theorem attachAndCheck_fields (s : FenceMan) {f : FenceObj} (a : FenceAction)
    (hsig : f.id ∉ s.signaled) :
    (attachAndCheck s f a).fenceList = s.fenceList.map (attach f.id a) ∧
      (attachAndCheck s f a).seqnoValid = true ∧
      ((s.seqnoValid = true ∧ subU32 s.fenceGoal f.seqno < 2 ^ 31 ∧
          (attachAndCheck s f a).fenceGoal = s.fenceGoal) ∨
        (attachAndCheck s f a).fenceGoal = f.seqno) := by
  have hsig' : f.id ∉ (attachAction (countAction s a) f.id a).signaled := hsig
  by_cases hk : s.seqnoValid = true ∧ subU32 s.fenceGoal f.seqno < 2 ^ 31
  · have hc : vmwFenceGoalCheckLocked (attachAction (countAction s a) f.id a) f =
        (false, attachAction (countAction s a) f.id a) := by
      rw [vmwFenceGoalCheckLocked, if_neg hsig']
      exact if_pos hk
    simp only [attachAndCheck, hc]
    exact ⟨rfl, hk.1, .inl ⟨hk.1, hk.2, rfl⟩⟩
  · have hc : vmwFenceGoalCheckLocked (attachAction (countAction s a) f.id a) f =
        (true, { attachAction (countAction s a) f.id a with
          fenceGoal := f.seqno, seqnoValid := true }) := by
      rw [vmwFenceGoalCheckLocked, if_neg hsig']
      exact if_neg hk
    simp only [attachAndCheck, hc]
    exact ⟨rfl, trivial, .inr trivial⟩

theorem attachAndCheck_inv {s : FenceMan} (h : Inv s) {f : FenceObj} {a : FenceAction}
    (hf : f ∈ s.fenceList) (hsig : f.id ∉ s.signaled) (ha : Admits s (.addAction f.id a)) :
    Inv (attachAndCheck s f a) := by
  obtain ⟨hlist, hvalid, hgoal⟩ := attachAndCheck_fields s a hsig
  refine ⟨?_, ?_, ?_⟩
  · have he : (s.fenceList.map (attach f.id a)).map FenceObj.id = s.fenceList.map FenceObj.id := by
      rw [List.map_map]
      exact List.map_congr_left fun g _ => (attach_frame _ _ _).1
    rw [hlist, he]
    exact h.ids
  · intro hv
    rw [hvalid] at hv
    cases hv
  · intro _ g hg hne
    rw [hlist] at hg
    rcases hgoal with ⟨hv, hlt, hkept⟩ | hnew
    · -- the goal is kept, which the admitted case allows only at the goal's own seqno
      rw [hkept]
      rcases ha hv f hf rfl with heq | ⟨hge, _⟩
      · rcases carriers_after h a hf hg hne with hgf | ⟨g', hg', hs', hne'⟩
        · rw [hgf, heq]
        · rw [← hs']
          exact h.carriers hv g' hg' hne'
      · omega
    · -- the goal is moved to a later fence, which the admitted case allows only without others
      rw [hnew]
      rcases carriers_after h a hf hg hne with hgf | ⟨g', hg', hs', hne'⟩
      · exact hgf
      · rw [← hs']
        cases hv : s.seqnoValid with
        | false => exact absurd (h.idle hv g' hg') hne'
        | true =>
          have hgoal' := h.carriers hv g' hg' hne'
          rcases ha hv f hf rfl with heq | ⟨hge, hall⟩
          · rw [hgoal', heq]
          · have hbefore := hall g' hg' hne'
            rw [hgoal'] at hbefore
            omega

theorem objInit_inv {s : FenceMan} (h : Inv s) {id q : ℕ} (hid : id ∉ s.fenceList.map FenceObj.id) :
    Inv (vmwFenceObjInit s id q) := by
  unfold vmwFenceObjInit
  split_ifs
  · exact h
  · refine ⟨?_, ?_, ?_⟩
    · simp only [List.map_append, List.map_cons, List.map_nil]
      refine List.nodup_append.2 ⟨h.ids, by simp, ?_⟩
      intro x hx y hy hxy
      rw [List.mem_singleton.1 hy] at hxy
      exact hid (hxy ▸ hx)
    · intro hv f hf
      rcases List.mem_append.1 hf with hf | hf
      · exact h.idle hv f hf
      · rw [List.mem_singleton.1 hf]
    · intro hv f hf hne
      rcases List.mem_append.1 hf with hf | hf
      · exact h.carriers hv f hf hne
      · rw [List.mem_singleton.1 hf] at hne
        exact absurd rfl hne

theorem step_inv {s t : FenceMan} {a : Act} (h : Inv s) (ha : Admits s a)
    (hs : step s a = some t) : Inv t := by
  have hsame : ∀ {u : FenceMan}, u.fenceList = s.fenceList → u.seqnoValid = s.seqnoValid →
      u.fenceGoal = s.fenceGoal → Inv u := fun hl hv hg => h.sublist (by rw [hl]) hv hg
  cases step_took hs with
  | sendFence => exact hsame rfl rfl rfl
  | sendFenceFail => exact hsame rfl rfl rfl
  | createFail => exact hsame rfl rfl rfl
  | objInit hq hlisted hsignaled =>
    exact (objInit_inv h hlisted).sublist (List.Sublist.refl _) rfl rfl
  | addAction hadd =>
    obtain ⟨_, rfl⟩ | ⟨hsig, f, hf, rfl, rfl⟩ := vmwFenceObjAddAction_cases hadd
    · exact hsame (by simp [countAction]) (by simp [countAction]) (by simp [countAction])
    · exact attachAndCheck_inv h hf hsig ha
  | update => exact update_inv h _ _
  | device => exact deviceRun_inv h _
  | destroy => exact h.sublist List.filter_sublist rfl rfl
  | fifoDown => exact hsame rfl rfl rfl
  | fifoDownExpire =>
    refine h.sublist ?_ (by simp [signalFence]) (by simp [signalFence])
    simpa [signalFence] using List.dropLast_sublist s.fenceList
  | fifoUp => exact hsame rfl rfl rfl

/-- In every run that admits its steps the goal covers all pending actions. -/
theorem admitted_runs_goal {m g : ℕ} {cap : Bool} {as : List Act} {s : FenceMan}
    (h : Runs step Admits (start m g cap) as s) : GoalCovers s := by
  have hi := h.invariant Inv (start_inv m g cap) fun _ _ _ hi ha hs => step_inv hi ha hs
  intro hv f hf hne
  rw [hi.carriers hv f hf hne]
  simp

/-- An action on the only listed fence becomes the goal. -/
theorem single_action_goal :
    ∃ s, Runs step Admits (start 0 0 true)
        [.sendFence 0, .objInit 0 7, .addAction 7 ⟨1, .event⟩] s ∧
      GoalCovers s ∧ s.seqnoValid = true ∧ s.fenceGoal = 1 := by
  have h : Runs step Admits (start 0 0 true)
      [.sendFence 0, .objInit 0 7, .addAction 7 ⟨1, .event⟩] _ :=
    .next trivial rfl (.next trivial rfl
      (.next (by intro hv; cases hv) rfl (.refl _)))
  exact ⟨_, h, admitted_runs_goal h, rfl, rfl⟩

/-- Attaching actions to fences 1 and 2 in that order moves the goal to 2, so the
    interrupt for fence 1 is missed. -/
theorem second_action_loses_goal :
    ¬ ∀ (m g : ℕ) (cap : Bool) (as : List Act) (s : FenceMan),
      Runs step anyLabel (start m g cap) as s → GoalCovers s := by
  intro h
  have hr : Runs step anyLabel (start 0 0 true)
      [.sendFence 0, .objInit 0 10, .sendFence 0, .objInit 0 11, .addAction 10 ⟨1, .event⟩,
        .addAction 11 ⟨2, .event⟩] _ := runs_of_exec rfl
  have hc := h _ _ _ _ _ hr rfl ⟨10, 1, [⟨1, .event⟩]⟩ (by decide) (by decide)
  exact absurd hc (by decide)

end Vmwgfx.FenceGoal

import Vmwgfx.FenceMachine

set_option autoImplicit false

/-!
# Where the actions are

An account of the actions under `fman->lock`: which are attached to fences, which are on the
`action_list` of a function, which have passed. Each part of a critical section moves actions
between these places and keeps the account.
-/
namespace Vmwgfx.FenceLedger
open FenceMachine Word32

def ofType (t : ActionType) (a : FenceAction) : Bool := decide (a.type = t)

theorem ofType_self (a : FenceAction) : ofType a.type a = true := decide_eq_true rfl

theorem ofType_other {t : ActionType} {a : FenceAction} (h : a.type ≠ t) : ofType t a = false :=
  decide_eq_false h

def attachedTo (l : List FenceObj) : List FenceAction := l.flatMap FenceObj.seqPassedActions

theorem attachedTo_cons (f : FenceObj) (l : List FenceObj) :
    attachedTo (f :: l) = f.seqPassedActions ++ attachedTo l := List.flatMap_cons

theorem attachedTo_append_bare (l : List FenceObj) (id seqno : ℕ) :
    attachedTo (l ++ [⟨id, seqno, []⟩]) = attachedTo l := by
  unfold attachedTo
  simp

theorem attachedTo_filter {l : List FenceObj} {id : ℕ}
    (h : ∀ f ∈ l, f.id = id → f.seqPassedActions = []) :
    attachedTo (l.filter fun f => f.id ≠ id) = attachedTo l := by
  induction l with
  | nil => rfl
  | cons f l ih =>
    have hrest := ih fun g hg => h g (List.mem_cons_of_mem f hg)
    by_cases hf : f.id = id
    · rw [List.filter_cons_of_neg (by simpa using hf), hrest, attachedTo_cons,
        h f List.mem_cons_self hf, List.nil_append]
    · rw [List.filter_cons_of_pos (by simpa using hf), attachedTo_cons, attachedTo_cons, hrest]

theorem map_attach_id (l : List FenceObj) (id : ℕ) (a : FenceAction) :
    (l.map (attach id a)).map FenceObj.id = l.map FenceObj.id := by
  rw [List.map_map]
  exact List.map_congr_left fun f _ => (attach_frame id a f).1

theorem attachedTo_attach {l : List FenceObj} (hids : (l.map FenceObj.id).Nodup) {id : ℕ}
    (hid : id ∈ l.map FenceObj.id) (a : FenceAction) :
    (attachedTo (l.map (attach id a))).Perm (a :: attachedTo l) := by
  induction l with
  | nil => cases hid
  | cons f l ih =>
    rw [List.map_cons, List.nodup_cons] at hids
    rw [List.map_cons, attachedTo_cons, attachedTo_cons]
    by_cases hf : f.id = id
    · have hrest : l.map (attach id a) = l := by
        refine (List.map_congr_left fun g hg => attach_other a ?_).trans (List.map_id' l)
        rintro rfl
        exact hids.1 (hf ▸ List.mem_map_of_mem hg)
      rw [hrest]
      unfold attach
      rw [if_pos hf, List.append_assoc]
      exact List.perm_middle
    · rw [attach_other a hf]
      have := ih hids.2 ((List.mem_cons.1 hid).resolve_left (Ne.symm hf))
      exact (this.append_left _).trans List.perm_middle

/-- `loose` are the actions on the `action_list` of the function that has the lock, `behind`
    those that have left `cleanup_list`. -/
structure Ledger (m : FenceMan) (added loose behind : List FenceAction) : Prop where
  ids : (m.fenceList.map FenceObj.id).Nodup
  places : added.Perm (loose ++ attachedTo m.fenceList ++ (m.cleanupList ++ behind))
  ran : m.seqPassedRun.Perm ((m.cleanupList ++ behind).map FenceAction.id)
  pending : ∀ t, m.pendingActions t =
    (loose ++ attachedTo m.fenceList).countP (ofType t) % 2 ^ 32

section parts
variable {m m' : FenceMan} {added loose behind : List FenceAction}

theorem Ledger.congr (h : Ledger m added loose behind) (hlist : m'.fenceList = m.fenceList)
    (hclean : m'.cleanupList = m.cleanupList) (hpend : m'.pendingActions = m.pendingActions)
    (hran : m'.seqPassedRun = m.seqPassedRun) : Ledger m' added loose behind := by
  obtain ⟨hids, hplaces, hrun, hpending⟩ := h
  refine ⟨?_, ?_, ?_, ?_⟩
  · rwa [hlist]
  · rwa [hlist, hclean]
  · rwa [hran, hclean]
  · rwa [hpend, hlist]

theorem Ledger.count (h : Ledger m added loose behind) (a : FenceAction) :
    Ledger (countAction m a) (added ++ [a]) (a :: loose) behind := by
  refine ⟨h.ids, ?_, h.ran, ?_⟩
  · exact (List.perm_append_singleton a added).trans (h.places.cons a)
  · intro t
    unfold countAction
    rw [List.cons_append, List.countP_cons]
    change Function.update m.pendingActions a.type (addU32 (m.pendingActions a.type) 1) t = _
    by_cases ht : a.type = t
    · subst ht
      rw [Function.update_self, h.pending, ofType_self, if_pos rfl]
      exact Nat.mod_add_mod _ _ _
    · rw [Function.update_of_ne (Ne.symm ht), h.pending, ofType_other ht]
      rfl

theorem Ledger.attach (a : FenceAction) (h : Ledger m added (a :: loose) behind) {id : ℕ}
    (hid : id ∈ m.fenceList.map FenceObj.id) :
    Ledger (attachAction m id a) added loose behind := by
  have hperm : (loose ++ attachedTo (m.fenceList.map (FenceMachine.attach id a))).Perm
      (a :: loose ++ attachedTo m.fenceList) :=
    ((attachedTo_attach h.ids hid a).append_left loose).trans List.perm_middle
  refine ⟨?_, ?_, h.ran, ?_⟩
  · change ((m.fenceList.map (FenceMachine.attach id a)).map FenceObj.id).Nodup
    rw [map_attach_id]
    exact h.ids
  · exact h.places.trans (hperm.symm.append_right _)
  · intro t
    exact (h.pending t).trans (congrArg (· % 2 ^ 32) (hperm.symm.countP_eq _))

theorem Ledger.splice {f : FenceObj} {rest : List FenceObj} (h : Ledger m added loose behind)
    (hlist : m.fenceList = f :: rest) (signaled : List ℕ) :
    Ledger { m with fenceList := rest, signaled := signaled } added
      (f.seqPassedActions ++ loose) behind := by
  have hperm : (loose ++ attachedTo m.fenceList).Perm
      (f.seqPassedActions ++ loose ++ attachedTo rest) := by
    rw [hlist, attachedTo_cons, ← List.append_assoc]
    exact List.perm_append_comm.append_right _
  refine ⟨?_, ?_, h.ran, ?_⟩
  · have := h.ids
    rw [hlist] at this
    exact (List.nodup_cons.1 this).2
  · exact h.places.trans (hperm.append_right _)
  · intro t
    exact (h.pending t).trans (congrArg (· % 2 ^ 32) (hperm.countP_eq _))

theorem Ledger.performAction {a : FenceAction} (h : Ledger m added (a :: loose) behind) :
    Ledger (FenceMachine.performAction m a) added loose behind := by
  refine ⟨h.ids, ?_, ?_, ?_⟩
  · refine h.places.trans ?_
    change ((a :: (loose ++ attachedTo m.fenceList)) ++ (m.cleanupList ++ behind)).Perm
      (loose ++ attachedTo m.fenceList ++ ((m.cleanupList ++ [a]) ++ behind))
    rw [List.append_assoc m.cleanupList, List.cons_append]
    refine List.Perm.trans ?_ (List.Perm.append_left _ List.perm_middle.symm)
    exact List.perm_middle.symm
  · change (m.seqPassedRun ++ [a.id]).Perm (((m.cleanupList ++ [a]) ++ behind).map FenceAction.id)
    rw [List.append_assoc, List.map_append]
    refine (List.perm_append_singleton _ _).trans ?_
    refine (h.ran.cons a.id).trans ?_
    rw [List.map_append]
    exact List.perm_middle.symm
  · intro t
    change Function.update m.pendingActions a.type (subU32 (m.pendingActions a.type) 1) t = _
    have hp := h.pending t
    rw [List.cons_append, List.countP_cons] at hp
    by_cases ht : a.type = t
    · subst ht
      rw [ofType_self, if_pos rfl] at hp
      rw [Function.update_self, hp]
      exact subU32_succ_mod _
    · rw [ofType_other ht] at hp
      rw [Function.update_of_ne (Ne.symm ht), hp]
      rfl

theorem Ledger.perform {actions : List FenceAction}
    (h : Ledger m added (actions ++ loose) behind) :
    Ledger (vmwFencesPerformActions m actions) added loose behind := by
  induction actions generalizing m with
  | nil => exact h
  | cons a actions ih => exact ih h.performAction

theorem Ledger.takeCleanup (h : Ledger m added loose behind) :
    Ledger { m with cleanupList := [] } added loose (m.cleanupList ++ behind) :=
  ⟨h.ids, h.places, h.ran, h.pending⟩

theorem Ledger.moveBehind {behind' : List FenceAction} (h : Ledger m added loose behind)
    (hperm : behind.Perm behind') : Ledger m added loose behind' :=
  ⟨h.ids, h.places.trans ((hperm.append_left _).append_left _),
    h.ran.trans ((hperm.append_left _).map _), h.pending⟩

end parts

section sections
variable {m : FenceMan} {added behind : List FenceAction}

theorem Ledger.deviceRun (h : Ledger m added [] behind) (k : ℕ) :
    Ledger (FenceMachine.deviceRun k m) added [] behind := by
  obtain ⟨_, _, heq, _⟩ := deviceRun_eq k m
  rw [heq]
  exact h.congr rfl rfl rfl rfl

theorem Ledger.scan (seqno : ℕ) {l : List FenceObj} (hl : m.fenceList = l)
    (h : Ledger m added [] behind) : Ledger (scanFences seqno l m) added [] behind := by
  induction l generalizing m with
  | nil => exact h
  | cons f rest ih =>
    unfold scanFences
    by_cases hf : passed seqno f = true
    · rw [if_pos hf]
      exact ih (performActions_fenceList _ _) (h.splice hl _).perform
    · rw [if_neg hf]
      exact h

theorem Ledger.goalNew (h : Ledger m added [] behind) (seqno : ℕ) :
    Ledger (vmwFenceGoalNewLocked m seqno).2 added [] behind := by
  unfold vmwFenceGoalNewLocked
  split_ifs
  · exact h
  · exact h
  · split
    · exact h.congr rfl rfl rfl rfl
    · exact h.congr rfl rfl rfl rfl

theorem Ledger.rerun (ks : List ℕ) (h : Ledger m added [] behind) (seqno : ℕ) :
    Ledger (FenceMachine.rerun ks m seqno).2 added [] behind := by
  induction ks generalizing m seqno with
  | nil => exact (h.scan seqno rfl).goalNew seqno
  | cons k ks ih =>
    have hpass : Ledger (updatePass m seqno).2 added [] behind := (h.scan seqno rfl).goalNew seqno
    unfold FenceMachine.rerun
    simp only
    split_ifs
    · exact hpass
    · exact hpass.deviceRun k
    · exact ih (hpass.deviceRun k) _

theorem Ledger.update (h : Ledger m added [] behind) (k : ℕ) (ks : List ℕ) :
    Ledger (vmwFencesUpdate k ks m).2 added [] behind :=
  ((h.deviceRun k).rerun ks _).congr rfl rfl rfl rfl

theorem Ledger.goalCheck {loose : List FenceAction} (h : Ledger m added loose behind)
    (f : FenceObj) : Ledger (vmwFenceGoalCheckLocked m f).2 added loose behind := by
  unfold vmwFenceGoalCheckLocked
  split_ifs
  · exact h
  · exact h
  · exact h.congr rfl rfl rfl rfl

theorem Ledger.addAction (h : Ledger m added [] behind) {id : ℕ} {a : FenceAction}
    {m' : FenceMan} (hstep : FenceMachine.vmwFenceObjAddAction m id a = some m') :
    Ledger m' (added ++ [a]) [] behind := by
  have hcounted := h.count a
  obtain ⟨_, rfl⟩ | ⟨_, f, hf, rfl, rfl⟩ := vmwFenceObjAddAction_cases hstep
  · exact Ledger.perform hcounted
  · exact ((hcounted.attach a (List.mem_map_of_mem hf)).goalCheck f).congr rfl rfl rfl rfl

theorem Ledger.destroy (h : Ledger m added [] behind) {id : ℕ}
    (hbare : ∀ f ∈ m.fenceList, f.id = id → f.seqPassedActions = []) (count : ℤ) :
    Ledger { m with
      fenceList := m.fenceList.filter fun f => f.id ≠ id, numFenceObjects := count }
      added [] behind := by
  have hsame := attachedTo_filter hbare
  refine ⟨h.ids.sublist (List.filter_sublist.map _), ?_, h.ran, ?_⟩
  · rw [hsame]
    exact h.places
  · rw [hsame]
    exact h.pending

theorem Ledger.objInit (h : Ledger m added [] behind) {id : ℕ}
    (hfresh : id ∉ m.fenceList.map FenceObj.id) (seqno : ℕ) :
    Ledger (vmwFenceObjInit m id seqno) added [] behind := by
  unfold vmwFenceObjInit
  split_ifs
  · exact h
  · have hsame := attachedTo_append_bare m.fenceList id seqno
    refine ⟨?_, ?_, h.ran, ?_⟩
    · rw [List.map_append]
      exact List.nodup_append'.2 ⟨h.ids, List.nodup_singleton _,
        List.disjoint_singleton.2 hfresh⟩
    · rw [hsame]
      exact h.places
    · rw [hsame]
      exact h.pending

theorem Ledger.others (h : Ledger m added [] behind) {a : Act} {m' : FenceMan}
    (hadd : ∀ id x, a ≠ .addAction id x) (hexpire : a ≠ .fifoDownExpire)
    (hstep : FenceMachine.step m a = some m') : Ledger m' added [] behind := by
  cases step_took hstep with
  | sendFence => exact h.congr rfl rfl rfl rfl
  | sendFenceFail => exact h.congr rfl rfl rfl rfl
  | createFail => exact h.congr rfl rfl rfl rfl
  | objInit _ hlisted _ => exact (h.objInit hlisted _).congr rfl rfl rfl rfl
  | @addAction id x => exact absurd rfl (hadd id x)
  | update => exact h.update _ _
  | device => exact h.deviceRun _
  | destroy hbare => exact h.destroy hbare _
  | fifoDown => exact h.congr rfl rfl rfl rfl
  | fifoDownExpire => exact absurd rfl hexpire
  | fifoUp => exact h.congr rfl rfl rfl rfl

end sections

theorem start_ledger (lastReadSeqno goal : ℕ) (capFence : Bool) :
    Ledger (start lastReadSeqno goal capFence) [] [] [] :=
  ⟨List.nodup_nil, List.Perm.refl _, List.Perm.refl _, fun _ => rfl⟩

end Vmwgfx.FenceLedger
